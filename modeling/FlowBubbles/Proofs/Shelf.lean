import FlowBubbles.Proofs.Outcome

/-!
# Taking drawings

A session analyses graphs with one configuration and the same observers, and takes drawings from the
shelf in between. An observer that draws is told about a report before the observers behind it, any
of which may still refuse. So what is taken from a place are the drawings of the last analysis that
came as far as an observer that draws there (`Session.follows_comesTo`), and this need not be an
analysis that succeeded (`Session.refusal_leaves_drawings`).
-/

namespace FlowBubbles

variable {κ σ τ : Type}

section

variable {g : KeyedGraph κ} {r : Report κ} {os os' : List (Observer κ σ)} {s : σ}

theorem told_cons (o : Observer κ σ) :
    told g r (o :: os) s = told g r os (o.notify g r s).2 := rfl

theorem accept_append :
    Accept g r (os ++ os') s ↔ Accept g r os s ∧ Accept g r os' (told g r os s) := by
  induction os generalizing s with
  | nil => simp [Accept, told]
  | cons o os ih =>
    rw [List.cons_append, Accept, Accept, ih, and_assoc]
    rfl

end

/-- A list that ends with `x`, split at an element: this is the last one, or `x` stands behind it. -/
theorem concat_eq_append_cons_iff {α : Type} {l before later : List α} {x y : α} :
    l ++ [x] = before ++ y :: later ↔
      (l = before ∧ x = y ∧ later = []) ∨ ∃ rest, later = rest ++ [x] ∧ l = before ++ y :: rest := by
  rcases later.eq_nil_or_concat' with rfl | ⟨rest, z, rfl⟩
  · simp [List.append_singleton_inj]
  · rw [← List.cons_append, ← List.append_assoc, List.append_singleton_inj]
    constructor
    · rintro ⟨rfl, rfl⟩
      exact .inr ⟨rest, rfl, rfl⟩
    · rintro (⟨-, -, h⟩ | ⟨rest', h, rfl⟩)
      · simp at h
      · obtain ⟨rfl, rfl⟩ := List.append_singleton_inj.1 h
        exact ⟨rfl, rfl⟩

theorem Shelf.get_take (s : Shelf) (i j : Nat) :
    (s.take j).2.get i = if i = j then none else s.get i :=
  NodeMap.get_set ..

/-! ## Sessions -/

/-- An observer of a session: it draws at a place of the shelf, or it leaves the shelf alone and has
a state that it shares with the other ones of its kind. -/
inductive Watcher (κ τ : Type)
  | draws (place : Nat)
  | other (o : Observer κ τ)

/-- What a watcher does with the shelf and the state. -/
def Watcher.observer [KeyText κ] : Watcher κ τ → Observer κ (Shelf × τ)
  | draws place => .drawing fun drawings s => (s.1.set place (some drawings), s.2)
  | other o =>
    { name := o.name
      notify := fun g r s => ((o.notify g r s.2).1, s.1, (o.notify g r s.2).2) }

/-- The configuration of a session, its watchers in their order, and their state at the start. -/
structure Session (κ τ : Type) where
  config : Config κ
  watchers : List (Watcher κ τ)
  start : τ

/-- What is done in a session. -/
inductive Session.Step (κ : Type)
  | analyze (g : KeyedGraph κ)
  | take (place : Nat)

namespace Session

variable [DecidableEq κ] [KeyText κ] (S : Session κ τ) {i : Nat}

/-- The watchers as observers. -/
def observers : List (Observer κ (Shelf × τ)) := S.watchers.map Watcher.observer

/-- The shelf and the state after a step. -/
def next (s : Shelf × τ) : Step κ → Shelf × τ
  | .analyze g => (analyzeWith S.config S.observers g s).2
  | .take place => ((s.1.take place).2, s.2)

/-- The shelf and the state after a history. -/
def after (history : List (Step κ)) : Shelf × τ := history.foldl S.next (.empty, S.start)

/-- What is taken from a place after a history. -/
def taken (history : List (Step κ)) (i : Nat) : Option Drawings := ((S.after history).1.take i).1

/-! ## The last analysis that counts -/

/-- Whether the analysis of `g` after a history succeeds with the report `r`. -/
def Succeeds (history : List (Step κ)) (g : KeyedGraph κ) (r : Report κ) : Prop :=
  (analyzeWith S.config S.observers g (S.after history)).1 = .ok r

/-- Whether the analysis of `g` after a history comes with the report `r` to a watcher that draws at
place `i`: the stages succeed, and the watchers in front of that one accept. -/
def ComesTo (i : Nat) (history : List (Step κ)) (g : KeyedGraph κ) (r : Report κ) : Prop :=
  (analyze S.config g).outcome = .ok r ∧
    ∃ front rest, S.watchers = front ++ .draws i :: rest ∧
      Accept g r (front.map Watcher.observer) (S.after history)

/-- Whether the analysis of `g` with the report `r` is the last one in a history that counts, and
nothing was taken from place `i` after it. -/
def LastSinceTake (Counts : List (Step κ) → KeyedGraph κ → Report κ → Prop) (i : Nat)
    (history : List (Step κ)) (g : KeyedGraph κ) (r : Report κ) : Prop :=
  ∃ before later, history = before ++ .analyze g :: later ∧ Counts before g r ∧
    .take i ∉ later ∧ ∀ between g' rest, later = between ++ .analyze g' :: rest →
      ∀ r', ¬Counts (before ++ .analyze g :: between) g' r'

/-- Whether the drawings that are taken from place `i` are always those of the last analysis that
counts, and there are some exactly if nothing was taken after such an analysis. -/
def Follows (Counts : List (Step κ) → KeyedGraph κ → Report κ → Prop) (i : Nat) : Prop :=
  ∀ history drawings, S.taken history i = some drawings ↔
    ∃ g r, LastSinceTake Counts i history g r ∧ drawings = r.drawings g

section

variable {Counts : List (Step κ) → KeyedGraph κ → Report κ → Prop} {history : List (Step κ)}
  {x : Step κ} {g : KeyedGraph κ} {r : Report κ}

omit [DecidableEq κ] [KeyText κ] in
theorem not_lastSinceTake_nil : ¬LastSinceTake Counts i [] g r := by
  rintro ⟨before, later, h, -⟩
  simp at h

omit [DecidableEq κ] [KeyText κ] in
/-- The last step decides: it is an analysis that counts, or it changes nothing about what was the
last one. -/
theorem lastSinceTake_concat_iff :
    LastSinceTake Counts i (history ++ [x]) g r ↔
      (x = .analyze g ∧ Counts history g r) ∨
        (x ≠ .take i ∧ (∀ g', x = .analyze g' → ∀ r', ¬Counts history g' r') ∧
          LastSinceTake Counts i history g r) := by
  constructor
  · rintro ⟨before, later, heq, hcounts, htake, hlast⟩
    rcases concat_eq_append_cons_iff.1 heq with ⟨rfl, rfl, rfl⟩ | ⟨rest, rfl, rfl⟩
    · exact .inl ⟨rfl, hcounts⟩
    · rw [List.mem_append, not_or, List.mem_singleton] at htake
      refine .inr ⟨Ne.symm htake.2, ?_, before, rest, rfl, hcounts, htake.1, ?_⟩
      · rintro g' rfl
        exact hlast rest g' [] rfl
      · rintro between g' rest' rfl
        exact hlast between g' (rest' ++ [x]) (by simp)
  · rintro (⟨rfl, hcounts⟩ | ⟨hx, hnot, before, later, rfl, hcounts, htake, hlast⟩)
    · exact ⟨history, [], rfl, hcounts, List.not_mem_nil, by simp⟩
    · refine ⟨before, later ++ [x], by simp, hcounts, by simp [htake, Ne.symm hx], ?_⟩
      intro between g' rest heq
      rcases concat_eq_append_cons_iff.1 heq with ⟨rfl, rfl, -⟩ | ⟨rest', -, rfl⟩
      · exact hnot g' rfl
      · exact hlast between g' rest' rfl

end

/-! ## What watchers leave -/

section

variable {ws front rest : List (Watcher κ τ)} {w : Watcher κ τ} {g : KeyedGraph κ} {r : Report κ}
  {s : Shelf × τ} {e : Error} {history : List (Step κ)}

omit [DecidableEq κ] in
/-- Watchers that do not draw at a place leave it as it is. -/
theorem get_told_of_not_mem (h : .draws i ∉ ws) :
    (told g r (ws.map Watcher.observer) s).1.get i = s.1.get i := by
  induction ws generalizing s with
  | nil => rfl
  | cons w ws ih =>
    rw [List.mem_cons, not_or] at h
    rw [List.map_cons, told_cons, ih h.2]
    cases w with
    | draws place =>
      have hne : i ≠ place := fun heq => h.1 (by rw [heq])
      exact (NodeMap.get_set ..).trans (if_neg hne)
    | other o => rfl

omit [DecidableEq κ] in
/-- A watcher that draws leaves the drawings of the report at its place. -/
theorem get_told_of_mem (h : .draws i ∈ ws) :
    (told g r (ws.map Watcher.observer) s).1.get i = some (r.drawings g) := by
  induction ws generalizing s with
  | nil => cases h
  | cons w ws ih =>
    rw [List.map_cons, told_cons]
    by_cases hrest : .draws i ∈ ws
    · exact ih hrest
    · obtain rfl : .draws i = w := (List.mem_cons.1 h).resolve_right hrest
      rw [get_told_of_not_mem hrest]
      exact (NodeMap.get_set ..).trans (if_pos rfl)

omit [DecidableEq κ] in
/-- A watcher that refuses does not draw. -/
theorem ne_draws_of_refuse {before : List (Observer κ (Shelf × τ))}
    (h : Refuse g r before w.observer e s) : w ≠ .draws i := by
  rintro rfl
  cases h.2

variable {S} in
theorem ComesTo.eq {r' : Report κ} (h : S.ComesTo i history g r) (h' : S.ComesTo i history g r') :
    r = r' :=
  Except.ok.inj (h.1.symm.trans h'.1)

/-- If all watchers accept, an analysis comes to all of them. -/
theorem comesTo_iff_of_accept (hout : (analyze S.config g).outcome = .ok r)
    (haccept : Accept g r S.observers (S.after history)) :
    S.ComesTo i history g r ↔ .draws i ∈ S.watchers := by
  constructor
  · rintro ⟨-, front, rest, hsplit, -⟩
    simp [hsplit]
  · intro hmem
    obtain ⟨front, rest, hsplit⟩ := List.append_of_mem hmem
    rw [observers, hsplit, List.map_append] at haccept
    exact ⟨hout, front, rest, hsplit, (accept_append.1 haccept).1⟩

/-- If a watcher refuses, an analysis comes to those in front of it. -/
theorem comesTo_iff_of_refuse (hout : (analyze S.config g).outcome = .ok r)
    (hsplit : S.watchers = front ++ w :: rest)
    (hrefuse : Refuse g r (front.map Watcher.observer) w.observer e (S.after history)) :
    S.ComesTo i history g r ↔ .draws i ∈ front := by
  constructor
  · rintro ⟨-, front', rest', hsplit', haccept⟩
    rw [hsplit] at hsplit'
    rcases List.append_eq_append_iff.1 hsplit' with ⟨l, rfl, hl⟩ | ⟨l, rfl, hl⟩
    · -- the watcher that refuses would have to accept
      cases l with
      | nil => exact absurd (List.cons.inj hl).1 (ne_draws_of_refuse hrefuse)
      | cons w' l =>
        obtain ⟨rfl, -⟩ := List.cons.inj hl
        rw [List.map_append, accept_append] at haccept
        cases hrefuse.2.symm.trans haccept.2.1
    · cases l with
      | nil => exact absurd (List.cons.inj hl).1.symm (ne_draws_of_refuse hrefuse)
      | cons w' l =>
        obtain ⟨rfl, -⟩ := List.cons.inj hl
        exact List.mem_append_right _ List.mem_cons_self
  · intro hmem
    obtain ⟨front', rest', rfl⟩ := List.append_of_mem hmem
    have haccept := hrefuse.1
    rw [List.map_append] at haccept
    exact ⟨hout, front', rest' ++ w :: rest, by simp [hsplit], (accept_append.1 haccept).1⟩

/-- An analysis changes the shelf only if its stages succeed, at the places of the watchers that it
comes to. -/
theorem next_analyze (history : List (Step κ)) (g : KeyedGraph κ) :
    (∃ e, (analyze S.config g).outcome = .error e ∧
        S.next (S.after history) (.analyze g) = S.after history) ∨
      ∃ (r : Report κ) (ws : List (Watcher κ τ)), (analyze S.config g).outcome = .ok r ∧
        S.next (S.after history) (.analyze g) =
          told g r (ws.map Watcher.observer) (S.after history) ∧
        ∀ i, .draws i ∈ ws ↔ S.ComesTo i history g r := by
  cases hout : (analyze S.config g).outcome with
  | error e => exact .inl ⟨e, rfl, by rw [next, analyzeWith_of_error hout]⟩
  | ok r =>
    rcases accept_or_refuse (g := g) (r := r) S.observers (S.after history) with
      haccept | ⟨before, o, rest, e, hobservers, hrefuse⟩
    · refine .inr ⟨r, S.watchers, rfl, ?_, fun i => (S.comesTo_iff_of_accept hout haccept).symm⟩
      rw [next, analyzeWith_of_accept hout haccept]
      rfl
    · have hnext := congrArg Prod.snd (analyzeWith_of_refuse hout hobservers hrefuse)
      obtain ⟨front, tail, hsplit, rfl, htail⟩ := List.map_eq_append_iff.1 hobservers
      obtain ⟨w, rest, rfl, rfl, rfl⟩ := List.map_eq_cons_iff.1 htail
      refine .inr ⟨r, front ++ [w], rfl, ?_, fun i => ?_⟩
      · rw [List.map_append]
        exact hnext
      · rw [S.comesTo_iff_of_refuse hout hsplit hrefuse, List.mem_append, List.mem_singleton]
        exact or_iff_left (Ne.symm (ne_draws_of_refuse hrefuse))

/-! ## One more step -/

variable {S}

theorem after_concat (history : List (Step κ)) (x : Step κ) :
    S.after (history ++ [x]) = S.next (S.after history) x := by
  rw [after, List.foldl_concat]
  rfl

theorem taken_concat_take_self : S.taken (history ++ [.take i]) i = none := by
  rw [taken, after_concat]
  exact (Shelf.get_take ..).trans (if_pos rfl)

theorem taken_concat_take {j : Nat} (h : j ≠ i) :
    S.taken (history ++ [.take j]) i = S.taken history i := by
  rw [taken, after_concat]
  exact (Shelf.get_take ..).trans (if_neg (Ne.symm h))

theorem taken_concat_analyze (h : S.ComesTo i history g r) :
    S.taken (history ++ [.analyze g]) i = some (r.drawings g) := by
  rw [taken, after_concat]
  rcases S.next_analyze history g with ⟨e, hout, -⟩ | ⟨r', ws, hout, hnext, hws⟩
  · cases hout.symm.trans h.1
  · obtain rfl : r' = r := Except.ok.inj (hout.symm.trans h.1)
    rw [hnext]
    exact get_told_of_mem ((hws i).2 h)

theorem taken_concat_analyze_of_not (h : ∀ r, ¬S.ComesTo i history g r) :
    S.taken (history ++ [.analyze g]) i = S.taken history i := by
  rw [taken, after_concat]
  rcases S.next_analyze history g with ⟨e, hout, hnext⟩ | ⟨r', ws, hout, hnext, hws⟩
  · rw [hnext]
    rfl
  · rw [hnext]
    exact get_told_of_not_mem (mt (hws i).1 (h r'))

/-! ## Whole histories -/

/-- What is taken are the drawings of the last analysis that came to a watcher that draws there. -/
theorem follows_comesTo (S : Session κ τ) (i : Nat) : S.Follows (S.ComesTo i) i := by
  intro history drawings
  induction history using List.reverseRecOn with
  | nil =>
    have hnone : S.taken [] i = none := rfl
    simp [hnone, not_lastSinceTake_nil]
  | append_singleton history x ih =>
    simp only [lastSinceTake_concat_iff]
    cases x with
    | take j =>
      by_cases hj : j = i
      · subst hj
        simp [taken_concat_take_self]
      · simp [taken_concat_take hj, ih, hj]
    | analyze g =>
      by_cases h : ∃ r, S.ComesTo i history g r
      · obtain ⟨r, hr⟩ := h
        rw [taken_concat_analyze hr]
        constructor
        · intro hsome
          obtain rfl := Option.some.inj hsome
          exact ⟨g, r, .inl ⟨rfl, hr⟩, rfl⟩
        · rintro ⟨g', r', ⟨hg, hr'⟩ | ⟨-, hnot, -⟩, rfl⟩
          · obtain rfl := Step.analyze.inj hg
            rw [hr.eq hr']
          · exact absurd hr (hnot g rfl r)
      · rw [not_exists] at h
        rw [taken_concat_analyze_of_not h, ih]
        refine exists_congr fun g' => exists_congr fun r' => and_congr_left' ?_
        constructor
        · intro hlast
          exact .inr ⟨nofun, fun g'' hg => Step.analyze.inj hg ▸ h, hlast⟩
        · rintro (⟨hg, hr⟩ | ⟨-, -, hlast⟩)
          · exact absurd (Step.analyze.inj hg ▸ hr) (h r')
          · exact hlast

/-- An analysis that succeeds comes to every watcher. -/
theorem succeeds_iff : S.Succeeds history g r ↔
    (analyze S.config g).outcome = .ok r ∧ Accept g r S.observers (S.after history) := by
  constructor
  · intro h
    have hout := analyze_of_analyzeWith h
    refine ⟨hout, (accept_or_refuse S.observers (S.after history)).resolve_right ?_⟩
    rintro ⟨before, o, rest, e, hobservers, hrefuse⟩
    rw [Succeeds, analyzeWith_of_refuse hout hobservers hrefuse] at h
    cases h
  · rintro ⟨hout, haccept⟩
    rw [Succeeds, analyzeWith_of_accept hout haccept]

/-- An analysis comes to a watcher that draws if it succeeds, or if the first watcher that refuses
stands behind that one. -/
theorem comesTo_iff : S.ComesTo i history g r ↔
    S.Succeeds history g r ∧ .draws i ∈ S.watchers ∨
      (analyze S.config g).outcome = .ok r ∧ ∃ front w rest e, S.watchers = front ++ w :: rest ∧
        Refuse g r (front.map Watcher.observer) w.observer e (S.after history) ∧
        .draws i ∈ front := by
  constructor
  · intro h
    rcases accept_or_refuse (g := g) (r := r) S.observers (S.after history) with
      haccept | ⟨before, o, rest, e, hobservers, hrefuse⟩
    · exact .inl ⟨succeeds_iff.2 ⟨h.1, haccept⟩, (S.comesTo_iff_of_accept h.1 haccept).1 h⟩
    · obtain ⟨front, tail, hsplit, rfl, htail⟩ := List.map_eq_append_iff.1 hobservers
      obtain ⟨w, rest, rfl, rfl, rfl⟩ := List.map_eq_cons_iff.1 htail
      exact .inr ⟨h.1, front, w, rest, e, hsplit, hrefuse,
        (S.comesTo_iff_of_refuse h.1 hsplit hrefuse).1 h⟩
  · rintro (⟨hsucceeds, hmem⟩ | ⟨hout, front, w, rest, e, hsplit, hrefuse, hmem⟩)
    · obtain ⟨hout, haccept⟩ := succeeds_iff.1 hsucceeds
      exact (S.comesTo_iff_of_accept hout haccept).2 hmem
    · exact (S.comesTo_iff_of_refuse hout hsplit hrefuse).2 hmem

end

/-- What is taken from a place are the drawings of the last analysis that came to a watcher that
draws there, and there are some exactly if nothing was taken from there after such an analysis. An
analysis comes there if it succeeds, but also if the first watcher that refuses stands behind the one
that draws. If no watcher behind it ever refuses, what is taken are always the drawings of the last
analysis that succeeded. -/
theorem taken_follows (S : Session κ τ) (i : Nat) :
    S.Follows (S.ComesTo i) i ∧
      (∀ history g r, S.ComesTo i history g r ↔
        S.Succeeds history g r ∧ .draws i ∈ S.watchers ∨
          (analyze S.config g).outcome = .ok r ∧
            ∃ front w rest e, S.watchers = front ++ w :: rest ∧
              Refuse g r (front.map Watcher.observer) w.observer e (S.after history) ∧
              .draws i ∈ front) ∧
      (.draws i ∈ S.watchers →
        (∀ front w rest, S.watchers = front ++ w :: rest → .draws i ∈ front →
          ∀ g r s, (w.observer.notify g r s).1 = .ok ()) →
        S.Follows S.Succeeds i) := by
  refine ⟨follows_comesTo S i, fun history g r => comesTo_iff, fun hmem haccept => ?_⟩
  have hsame : S.ComesTo i = S.Succeeds := by
    funext history g r
    rw [comesTo_iff, eq_iff_iff]
    constructor
    · rintro (⟨hsucceeds, -⟩ | ⟨-, front, w, rest, e, hsplit, hrefuse, hfront⟩)
      · exact hsucceeds
      · cases hrefuse.2.symm.trans (haccept front w rest hsplit hfront ..)
    · exact fun hsucceeds => .inl ⟨hsucceeds, hmem⟩
  exact hsame ▸ follows_comesTo S i

end Session

/-- An edge between two nodes. -/
def KeyedGraph.oneEdge : KeyedGraph String where
  labels := #["a", "b"]
  edges := #[⟨0, 1⟩]
  edges_lt := by decide
  nodup := by decide

namespace Session

/-- A session with a watcher that draws, and one behind it that always refuses. -/
def vetoed : Session String Unit where
  config := {}
  watchers := [.draws 0, .other ⟨"strict", fun _ _ s => (.error .emptyGraph, s)⟩]
  start := ()

/-- An analysis that fails brings drawings to a place where there were none. -/
theorem refusal_leaves_drawings :
    (∀ r, ¬vetoed.Succeeds [] .oneEdge r) ∧ vetoed.taken [] 0 = none ∧
      vetoed.taken [.analyze .oneEdge] 0 ≠ none ∧ ¬vetoed.Follows vetoed.Succeeds 0 := by
  have hfails : ∀ r, ¬vetoed.Succeeds [] .oneEdge r := by
    have herror : (analyzeWith vetoed.config vetoed.observers .oneEdge
        (vetoed.after [])).1.toOption = none := by decide
    intro r hr
    rw [Succeeds] at hr
    rw [hr] at herror
    cases herror
  have hsome : (vetoed.taken [.analyze .oneEdge] 0).isSome = true := by decide
  refine ⟨hfails, rfl, Option.isSome_iff_ne_none.1 hsome, fun hfollows => ?_⟩
  obtain ⟨drawings, hdrawings⟩ := Option.isSome_iff_exists.1 hsome
  obtain ⟨g, r, hlast, -⟩ := (hfollows _ _).1 hdrawings
  have hconcat : LastSinceTake vetoed.Succeeds 0 ([] ++ [.analyze .oneEdge]) g r := hlast
  rcases lastSinceTake_concat_iff.1 hconcat with ⟨hg, hr⟩ | ⟨-, -, hlast⟩
  · exact hfails r (Step.analyze.inj hg ▸ hr)
  · exact not_lastSinceTake_nil hlast

end Session

end FlowBubbles
