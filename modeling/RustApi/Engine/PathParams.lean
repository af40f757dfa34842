import Mathlib.Data.List.Count
import RustApi.Engine.RouterAnswers

/-!
# Path parameters and the path they came from

A tree reports one pair for each hole of the route that matched; `matchRoute` collects the pairs into
a map.  `GivesBack` is what one would want of that map: writing its values into the holes of the
pattern spells the path again.

A map has one value for each name, the last, and a pattern may use a name twice.
`spell_of_singleValued` and `singleValued_of_spell` show that this is the only thing that can go wrong,
whatever the path: the text of the path leaves no other way to fill the holes, because nothing but text
follows a parameter in its segment (`WellPlaced`).  `params_give_back_iff` puts it in terms of the
router.
-/

namespace RustApi

open RustStd StepRuns

/-! ### Holes and their segments -/

/-- The pieces go on with text to the end of the segment. -/
def EndsInText : List Piece → Prop
  | [] => True
  | .lit c :: ps => c = '/' ∨ EndsInText ps
  | _ => False

/-- After a parameter comes text to the end of its segment, and nothing comes after a catch-all. -/
def WellPlaced : List Piece → Prop
  | [] => True
  | .lit _ :: ps => WellPlaced ps
  | .param _ :: ps => EndsInText ps ∧ WellPlaced ps
  | .catchAll _ :: ps => ps = []

/-- The text is empty or begins with a slash. -/
def EndsSegment (s : Str) : Prop := s = [] ∨ s.head? = some '/'

/-- A catch-all is read at the end only. -/
theorem hole_cases {name : Str} {s : List (Char × Bool)} {p : Piece}
    (h : Route.hole name s = some p) : (∃ n, p = .catchAll n ∧ s = []) ∨ p = .param name := by
  unfold Route.hole at h
  split at h
  · cases h
  · split at h
    · next hcond => exact .inl ⟨_, (Option.some.inj h).symm, hcond.2.2.2⟩
    · cases h
  · split at h
    · exact .inr (Option.some.inj h).symm
    · cases h

/-- Pieces are read with their holes in place; in a segment that has a hole already, only text is. -/
theorem wellPlaced_pieces {held : Bool} {state : Option Str} {s : List (Char × Bool)}
    {ps : List Piece} (h : Route.pieces held state s = some ps) :
    WellPlaced ps ∧ (held = true → state = none → EndsInText ps) := by
  fun_induction Route.pieces held state s generalizing ps with
  | case1 =>
      cases h
      exact ⟨trivial, fun _ _ => trivial⟩
  | case2 => cases h
  | case3 held s hheld ih => exact ⟨(ih h).1, fun hheld' => absurd hheld' hheld⟩
  | case4 => cases h
  | case5 held c escaped s _ _ ih =>
      obtain ⟨qs, hqs, rfl⟩ := Option.map_eq_some_iff.mp h
      obtain ⟨hplaced, htext⟩ := ih hqs
      refine ⟨hplaced, fun hheld _ => ?_⟩
      by_cases hc : c = '/'
      · exact .inl hc
      · exact .inr (htext (by simp [hheld, hc]) rfl)
  | case6 => cases h
  | case7 held name s p hp ih =>
      obtain ⟨qs, hqs, rfl⟩ := Option.map_eq_some_iff.mp h
      obtain ⟨hplaced, htext⟩ := ih hqs
      refine ⟨?_, fun _ hstate => (by cases hstate)⟩
      rcases hole_cases hp with ⟨n, rfl, rfl⟩ | rfl
      · rw [Route.pieces] at hqs
        exact (Option.some.inj hqs).symm
      · exact ⟨htext rfl rfl, hplaced⟩
  | case8 => cases h
  | case9 held name c escaped s _ ih => exact ⟨(ih h).1, fun _ hstate => (by cases hstate)⟩

theorem wellPlaced_parse {route : Str} {ps : List Piece} (h : Route.parse route = some ps) :
    WellPlaced ps := (wellPlaced_pieces h).1

theorem endsSegment_nil : EndsSegment [] := .inl rfl

/-- The text begins with the text of the pieces, which ends its first segment. -/
def BeginsWith (ps : List Piece) (s : Str) : Prop :=
  ∃ rest, s = segmentText ps ++ rest ∧ EndsSegment rest

theorem beginsWith_nil : BeginsWith [] [] := ⟨[], rfl, endsSegment_nil⟩

theorem BeginsWith.lit {c : Char} {ps : List Piece} {s : Str} (h : c ≠ '/' → BeginsWith ps s) :
    BeginsWith (.lit c :: ps) (c :: s) := by
  by_cases hc : c = '/'
  · refine ⟨c :: s, ?_, .inr (by rw [hc]; rfl)⟩
    rw [segmentText, if_pos hc, List.nil_append]
  · obtain ⟨rest, rfl, hrest⟩ := h hc
    refine ⟨rest, ?_, hrest⟩
    rw [segmentText, if_neg hc, List.cons_append]

/-- What fills a route after a parameter. -/
theorem Fills.beginsWith {ps : List Piece} {vs : List Str} {s : Str} (h : Fills ps vs s)
    (hps : EndsInText ps) : BeginsWith ps s := by
  induction h with
  | nil => exact beginsWith_nil
  | lit _ ih => exact .lit fun hc => ih (hps.resolve_left hc)
  | param _ _ _ _ => exact hps.elim
  | catchAll _ _ _ => exact hps.elim

theorem slash_notMem_segmentText (ps : List Piece) : '/' ∉ segmentText ps := by
  fun_induction segmentText ps with
  | case1 => exact List.not_mem_nil
  | case2 c ps hc ih =>
      rw [List.mem_cons, not_or]
      exact ⟨Ne.symm hc, ih⟩
  | case3 => exact List.not_mem_nil

/-- Two texts cut at the end of their first segment are cut at the same place. -/
theorem segment_unique {v v' s s' : Str} (hv : '/' ∉ v) (hv' : '/' ∉ v') (hs : EndsSegment s)
    (hs' : EndsSegment s') (h : v ++ s = v' ++ s') : v = v' ∧ s = s' := by
  have htake : ∀ {v s : Str}, '/' ∉ v → EndsSegment s → (v ++ s).takeWhile (· ≠ '/') = v := by
    intro v s hv hs
    have hall : ∀ c ∈ v, decide (c ≠ '/') = true := by
      intro c hc
      simpa using fun heq : c = '/' => hv (heq ▸ hc)
    rw [List.takeWhile_append_of_pos hall]
    cases s with
    | nil => rw [List.takeWhile_nil, List.append_nil]
    | cons c s =>
        rcases hs with hnil | hhead
        · cases hnil
        · cases hhead
          rw [List.takeWhile_cons_of_neg (by simp), List.append_nil]
  have hsame : v = v' := by
    rw [← htake hv hs, h, htake hv' hs']
  refine ⟨hsame, ?_⟩
  rw [hsame] at h
  exact List.append_cancel_left h

/-- The text behind a parameter leaves one value for it. -/
theorem value_unique {ps : List Piece} {v v' s s' : Str} (hv : '/' ∉ v) (hv' : '/' ∉ v')
    (hs : BeginsWith ps s) (hs' : BeginsWith ps s') (h : v ++ s = v' ++ s') : v = v' ∧ s = s' := by
  obtain ⟨rest, rfl, hrest⟩ := hs
  obtain ⟨rest', rfl, hrest'⟩ := hs'
  have htext := slash_notMem_segmentText ps
  rw [← List.append_assoc, ← List.append_assoc] at h
  obtain ⟨hfront, rfl⟩ := segment_unique (fun hmem => (List.mem_append.mp hmem).elim hv htext)
    (fun hmem => (List.mem_append.mp hmem).elim hv' htext) hrest hrest' h
  exact ⟨List.append_cancel_right hfront, rfl⟩

/-- **A path fills the holes of a route in one way only.** -/
theorem Fills.unique {ps : List Piece} {vs vs' : List Str} {s : Str} (hps : WellPlaced ps)
    (h : Fills ps vs s) (h' : Fills ps vs' s) : vs = vs' := by
  induction h generalizing vs' with
  | nil =>
      cases h'
      rfl
  | lit _ ih =>
      cases h' with
      | lit h' => exact ih hps h'
  | @param name v ps vs s _ hslash hrest ih =>
      generalize ht : v ++ s = t at h'
      cases h' with
      | @param _ w _ ws u _ hslash' hrest' =>
          obtain ⟨rfl, rfl⟩ := value_unique hslash hslash' (hrest.beginsWith hps.1)
            (hrest'.beginsWith hps.1) ht
          rw [ih hps.2 hrest']
  | @catchAll name v ps vs s _ hrest ih =>
      generalize ht : v ++ s = t at h'
      cases h' with
      | @catchAll _ w _ ws u _ hrest' =>
          have hnil : ps = [] := hps
          subst hnil
          cases hrest
          cases hrest'
          rw [List.append_nil, List.append_nil] at ht
          rw [ht]

theorem Route.Captures.unique {route path : Str} {params params' : List (Str × Str)}
    (h : Route.Captures route path params) (h' : Route.Captures route path params') :
    params = params' := by
  obtain ⟨ps, vs, hps, hfill, rfl⟩ := h
  obtain ⟨ps', vs', hps', hfill', rfl⟩ := h'
  rw [hps, Option.some.injEq] at hps'
  subst hps'
  rw [hfill.unique (wellPlaced_parse hps) hfill']

theorem Fills.length_eq {ps : List Piece} {vs : List Str} {s : Str} (h : Fills ps vs s) :
    (holeNames ps).length = vs.length := by
  induction h with
  | nil => rfl
  | lit _ ih => exact ih
  | param _ _ _ ih => simp only [holeNames, List.length_cons, ih]
  | catchAll _ _ ih => simp only [holeNames, List.length_cons, ih]

/-! ### Writing the parameters back -/

/-- The pieces written out, each hole by the value of its name; `none` if one has no value. -/
def spell (value : Str → Option Str) : List Piece → Option Str
  | [] => some []
  | .lit c :: ps => (spell value ps).map (c :: ·)
  | .param name :: ps => (value name).bind fun v => (spell value ps).map (v ++ ·)
  | .catchAll name :: ps => (value name).bind fun v => (spell value ps).map (v ++ ·)

/-- Writing the parameters into the holes of the pattern gives the path, and there are no others. -/
def GivesBack (pattern : Str) (params : HashMap Str Str) (path : Str) : Prop :=
  ∃ ps, Route.parse pattern = some ps ∧ spell params.get ps = some path ∧
    ∀ k ∈ params.keys, k ∈ holeNames ps

/-- The last value that is paired with a name. -/
def lastValue (pairs : List (Str × Str)) (name : Str) : Option Str :=
  ((pairs.filter fun e => e.1 = name).map Prod.snd).getLast?

/-- The last value of each name, written into the holes of the pattern, gives the path, and no name is
foreign to the pattern. -/
def SpelledByLast (pattern : Str) (pairs : List (Str × Str)) (path : Str) : Prop :=
  ∃ ps, Route.parse pattern = some ps ∧ spell (lastValue pairs) ps = some path ∧
    ∀ e ∈ pairs, e.1 ∈ holeNames ps

theorem givesBack_collect_iff (pattern path : Str) (pairs : List (Str × Str)) :
    GivesBack pattern (HashMap.collect pairs) path ↔ SpelledByLast pattern pairs path := by
  have hget : (HashMap.collect pairs).get = lastValue pairs := by
    funext name
    exact HashMap.get_collect pairs name
  have hkeys : ∀ ps, (∀ k ∈ (HashMap.collect pairs).keys, k ∈ holeNames ps) ↔
      ∀ e ∈ pairs, e.1 ∈ holeNames ps := by
    intro ps
    constructor
    · intro h e he
      exact h e.1 (HashMap.mem_keys.mpr (HashMap.exists_get_collect he))
    · intro h k hk
      obtain ⟨v, hv⟩ := HashMap.mem_keys.mp hk
      exact h (k, v) (HashMap.mem_of_get_collect hv)
  unfold GivesBack SpelledByLast
  simp only [hget, hkeys]

theorem spell_of_agree {value : Str → Option Str} {ps : List Piece} {vs : List Str} {s : Str}
    (h : Fills ps vs s) (hagree : ∀ e ∈ (holeNames ps).zip vs, value e.1 = some e.2) :
    spell value ps = some s := by
  induction h with
  | nil => rfl
  | lit _ ih => rw [spell, ih hagree, Option.map_some]
  | param _ _ _ ih =>
      rw [holeNames, List.zip_cons_cons, List.forall_mem_cons] at hagree
      rw [spell, hagree.1, ih hagree.2, Option.bind_some, Option.map_some]
  | catchAll _ _ ih =>
      rw [holeNames, List.zip_cons_cons, List.forall_mem_cons] at hagree
      rw [spell, hagree.1, ih hagree.2, Option.bind_some, Option.map_some]

/-- With one value for each name the last values spell the path. -/
theorem spell_of_singleValued {ps : List Piece} {vs : List Str} {s : Str} (h : Fills ps vs s)
    (hone : HashMap.SingleValued ((holeNames ps).zip vs)) :
    spell (lastValue ((holeNames ps).zip vs)) ps = some s :=
  spell_of_agree h fun e he => (HashMap.get_collect _ e.1).symm.trans (hone.get_collect he)

/-- What is written out after a parameter. -/
theorem beginsWith_of_spell {value : Str → Option Str} {ps : List Piece} {s : Str}
    (h : spell value ps = some s) (hps : EndsInText ps) : BeginsWith ps s := by
  induction ps generalizing s with
  | nil =>
      cases h
      exact beginsWith_nil
  | cons p ps ih =>
      cases p with
      | lit c =>
          obtain ⟨t, ht, rfl⟩ := Option.map_eq_some_iff.mp h
          exact .lit fun hc => ih ht (hps.resolve_left hc)
      | param name => exact hps.elim
      | catchAll name => exact hps.elim

/-- A catch-all, being last, has its own value. -/
def LastAgrees (value : Str → Option Str) (ps : List Piece) (vs : List Str) : Prop :=
  ∀ init name vinit v, ps = init ++ [.catchAll name] → vs = vinit ++ [v] → value name = some v

theorem LastAgrees.tail {value : Str → Option Str} {p : Piece} {ps : List Piece} {v : Str}
    {vs : List Str} (h : LastAgrees value (p :: ps) (v :: vs)) : LastAgrees value ps vs := by
  intro init name vinit w hps hvs
  exact h (p :: init) name (v :: vinit) w (by rw [hps]; rfl) (by rw [hvs]; rfl)

theorem LastAgrees.lit {value : Str → Option Str} {c : Char} {ps : List Piece} {vs : List Str}
    (h : LastAgrees value (.lit c :: ps) vs) : LastAgrees value ps vs := by
  intro init name vinit w hps hvs
  exact h (.lit c :: init) name vinit w (by rw [hps]; rfl) hvs

theorem holeNames_append (ps qs : List Piece) :
    holeNames (ps ++ qs) = holeNames ps ++ holeNames qs := by
  induction ps with
  | nil => rfl
  | cons p ps ih =>
      cases p with
      | lit c => exact ih
      | param name => exact congrArg (name :: ·) ih
      | catchAll name => exact congrArg (name :: ·) ih

theorem lastAgrees_lastValue {ps : List Piece} {vs : List Str} {s : Str} (h : Fills ps vs s) :
    LastAgrees (lastValue ((holeNames ps).zip vs)) ps vs := by
  intro init name vinit v hps hvs
  have hlen := h.length_eq
  rw [hps, hvs, holeNames_append, List.length_append, List.length_append] at hlen
  have hinit : (holeNames init).length = vinit.length := Nat.add_right_cancel hlen
  rw [hps, hvs, holeNames_append, List.zip_append hinit]
  show lastValue (_ ++ [(name, v)]) name = some v
  rw [lastValue, List.filter_append, List.filter_cons_of_pos (by simp), List.map_append]
  exact List.getLast?_concat

/-- Text written with other values has no fewer slashes: a parameter is filled without any. -/
theorem count_le_of_spell {value : Str → Option Str} {ps : List Piece} {vs : List Str} {s s' : Str}
    (hps : WellPlaced ps) (h : Fills ps vs s) (hlast : LastAgrees value ps vs)
    (hspell : spell value ps = some s') : s.count '/' ≤ s'.count '/' := by
  induction h generalizing s' with
  | nil => exact Nat.zero_le _
  | @lit c ps vs s _ ih =>
      obtain ⟨t, ht, rfl⟩ := Option.map_eq_some_iff.mp hspell
      have hle := ih hps hlast.lit ht
      rw [List.count_cons, List.count_cons]
      omega
  | @param name v ps vs s _ hslash _ ih =>
      obtain ⟨w, -, hrest⟩ := Option.bind_eq_some_iff.mp hspell
      obtain ⟨t, ht, rfl⟩ := Option.map_eq_some_iff.mp hrest
      have hle := ih hps.2 hlast.tail ht
      rw [List.count_append, List.count_append, List.count_eq_zero.mpr hslash]
      omega
  | @catchAll name v ps vs s _ hrest _ =>
      have hnil : ps = [] := hps
      subst hnil
      cases hrest
      have hv : value name = some v := hlast [] name [] v rfl rfl
      rw [spell, hv, Option.bind_some, spell, Option.map_some, Option.some.injEq] at hspell
      rw [hspell]

/-- **Values that spell the path are the values of the holes.** -/
theorem agree_of_spell {value : Str → Option Str} {ps : List Piece} {vs : List Str} {s : Str}
    (hps : WellPlaced ps) (h : Fills ps vs s) (hlast : LastAgrees value ps vs)
    (hspell : spell value ps = some s) : ∀ e ∈ (holeNames ps).zip vs, value e.1 = some e.2 := by
  induction h with
  | nil =>
      intro e he
      cases he
  | lit _ ih =>
      obtain ⟨t, ht, heq⟩ := Option.map_eq_some_iff.mp hspell
      rw [List.cons.injEq] at heq
      rw [heq.2] at ht
      exact ih hps hlast.lit ht
  | @param name v ps vs s _ hslash hrest ih =>
      obtain ⟨w, hw, hrest'⟩ := Option.bind_eq_some_iff.mp hspell
      obtain ⟨t, ht, heq⟩ := Option.map_eq_some_iff.mp hrest'
      -- a slash in the value written here would be one too many
      have hle := count_le_of_spell hps.2 hrest hlast.tail ht
      have hcount := congrArg (List.count '/') heq
      rw [List.count_append, List.count_append, List.count_eq_zero.mpr hslash] at hcount
      have hslash' : '/' ∉ w := List.count_eq_zero.mp (by omega)
      obtain ⟨rfl, rfl⟩ := value_unique hslash' hslash (beginsWith_of_spell ht hps.1)
        (hrest.beginsWith hps.1) heq
      rw [holeNames, List.zip_cons_cons, List.forall_mem_cons]
      exact ⟨hw, ih hps.2 hlast.tail ht⟩
  | @catchAll name v ps vs s _ hrest _ =>
      have hnil : ps = [] := hps
      subst hnil
      cases hrest
      intro e he
      rw [List.mem_singleton.mp he]
      exact hlast [] name [] v rfl rfl

/-- Last values that spell the path are all the values there are. -/
theorem singleValued_of_spell {ps : List Piece} {vs : List Str} {s : Str} (hps : WellPlaced ps)
    (h : Fills ps vs s) (hspell : spell (lastValue ((holeNames ps).zip vs)) ps = some s) :
    HashMap.SingleValued ((holeNames ps).zip vs) := by
  have hagree := agree_of_spell hps h (lastAgrees_lastValue h) hspell
  refine HashMap.singleValued_of_get (m := HashMap.collect ((holeNames ps).zip vs)) ?_
  intro e he
  exact (HashMap.get_collect _ e.1).trans (hagree e he)

/-- **The last values of what a pattern captures spell the path exactly when no name has two values.** -/
theorem spelledByLast_iff {pattern path : Str} {pairs : List (Str × Str)}
    (h : Route.Captures pattern path pairs) :
    SpelledByLast pattern pairs path ↔ HashMap.SingleValued pairs := by
  obtain ⟨ps, vs, hps, hfill, rfl⟩ := h
  constructor
  · intro hlast
    obtain ⟨ps', hps', hspell, -⟩ := hlast
    rw [hps, Option.some.injEq] at hps'
    rw [← hps'] at hspell
    exact singleValued_of_spell (wellPlaced_parse hps) hfill hspell
  · intro hone
    exact ⟨ps, hps, spell_of_singleValued hfill hone, fun e he => (List.of_mem_zip he).1⟩

/-! ### The router -/

namespace Router

variable {H : Type} {M : Matchit H} {known : Str → Prop}

/-- What the tree of a method reports comes from a registered call of the method: its handler, and the
pairs its pattern captures. -/
theorem treeAnswer_captures (hM : M.AtReportsCaptures known) {calls : List (AddCall H)}
    (hknown : ∀ c ∈ calls, known c.pattern) {m : Method} {path : Str} {handler : H}
    {pairs : List (Str × Str)} (h : (after M calls).treeAnswer m path = some (handler, pairs)) :
    ∃ c ∈ registered M calls, c.method = m ∧ c.handler = handler ∧
      Route.Captures c.pattern path pairs := by
  obtain ⟨ops, hat, hfrom, hops⟩ := treeAnswer_eq_some h
  obtain ⟨o, ho, hv, hcap⟩ := hM ops (known_of_handed hknown hfrom) path handler pairs hat
  obtain ⟨c, hc, hm, rfl⟩ := hops o ho
  exact ⟨c, hc, hm, hv, hcap⟩

/-- A match gives the path back through the pattern of some registered call of its handler. -/
def ParamsGiveBack (M : Matchit H) (calls : List (AddCall H)) (m : Method) (path : Str) : Prop :=
  ∀ handler params, (after M calls).matchRoute m path = .ok (handler, params) →
    ∃ c ∈ registered M calls, c.method = m ∧ c.handler = handler ∧
      GivesBack c.pattern params path

/-- In terms of what the tree reports: its last values have to spell the path. -/
theorem paramsGiveBack_iff (calls : List (AddCall H)) (m : Method) (path : Str) :
    ParamsGiveBack M calls m path ↔
      ∀ handler pairs, (after M calls).treeAnswer m path = some (handler, pairs) →
        ∃ c ∈ registered M calls, c.method = m ∧ c.handler = handler ∧
          SpelledByLast c.pattern pairs path := by
  simp only [← givesBack_collect_iff]
  constructor
  · intro h handler pairs hanswer
    exact h handler _ ((matchRoute_eq_ok_iff _ m path (handler, _)).mpr ⟨pairs, hanswer, rfl⟩)
  · intro h handler params hok
    obtain ⟨pairs, hanswer, hparams⟩ := (matchRoute_eq_ok_iff _ m path (handler, params)).mp hok
    obtain rfl : params = HashMap.collect pairs := hparams
    exact h handler pairs hanswer

/-- No handler is registered under the method for two patterns. -/
def HandlersApart (M : Matchit H) (calls : List (AddCall H)) (m : Method) : Prop :=
  ∀ c ∈ registered M calls, ∀ c' ∈ registered M calls, c.method = m → c'.method = m →
    c.handler = c'.handler → c.pattern = c'.pattern

/-- The pattern that has captured the pairs is spelled by the last values when there is one for each
name; any other one is by accident. -/
theorem paramsGiveBack_iff_or (hM : M.AtReportsCaptures known) {calls : List (AddCall H)}
    (hknown : ∀ c ∈ calls, known c.pattern) (m : Method) (path : Str) :
    ParamsGiveBack M calls m path ↔
      ∀ handler pairs, (after M calls).treeAnswer m path = some (handler, pairs) →
        HashMap.SingleValued pairs ∨
        ∃ c ∈ registered M calls, c.method = m ∧ c.handler = handler ∧
          ¬ Route.Captures c.pattern path pairs ∧ SpelledByLast c.pattern pairs path := by
  rw [paramsGiveBack_iff]
  refine forall_congr' fun handler => forall_congr' fun pairs => forall_congr' fun hanswer => ?_
  constructor
  · intro h
    obtain ⟨c, hc, hm, hh, hspelled⟩ := h
    by_cases hcap : Route.Captures c.pattern path pairs
    · exact .inl ((spelledByLast_iff hcap).mp hspelled)
    · exact .inr ⟨c, hc, hm, hh, hcap, hspelled⟩
  · intro h
    rcases h with hone | ⟨c, hc, hm, hh, -, hspelled⟩
    · obtain ⟨c, hc, hm, hh, hcap⟩ := treeAnswer_captures hM hknown hanswer
      exact ⟨c, hc, hm, hh, (spelledByLast_iff hcap).mpr hone⟩
    · exact ⟨c, hc, hm, hh, hspelled⟩

/-- **Path parameters give the path back exactly when the tree reports no two values for one name**, or,
by accident, where the handler has been registered under the method for another pattern, which the last
values happen to spell out.  With handlers of their own the patterns leave no room for that. -/
theorem params_give_back_iff (hM : M.AtReportsCaptures known) (calls : List (AddCall H))
    (hknown : ∀ c ∈ calls, known c.pattern) (m : Method) (path : Str) :
    (ParamsGiveBack M calls m path ↔
      ∀ handler pairs, (after M calls).treeAnswer m path = some (handler, pairs) →
        HashMap.SingleValued pairs ∨
        ∃ c ∈ registered M calls, c.method = m ∧ c.handler = handler ∧
          ¬ Route.Captures c.pattern path pairs ∧ SpelledByLast c.pattern pairs path) ∧
    (HandlersApart M calls m → (ParamsGiveBack M calls m path ↔
      ∀ handler pairs, (after M calls).treeAnswer m path = some (handler, pairs) →
        HashMap.SingleValued pairs)) := by
  have hiff := paramsGiveBack_iff_or hM hknown m path
  refine ⟨hiff, fun hapart => hiff.trans ?_⟩
  refine forall_congr' fun handler => forall_congr' fun pairs => forall_congr' fun hanswer => ?_
  refine or_iff_left ?_
  intro h
  obtain ⟨c, hc, hm, hh, hno, -⟩ := h
  obtain ⟨c', hc', hm', hh', hcap⟩ := treeAnswer_captures hM hknown hanswer
  rw [hapart c' hc' c hc hm' hm (hh'.trans hh.symm)] at hcap
  exact hno hcap

/-- A pattern with two parameters of one name. -/
def sameNameTwice : List (AddCall ℕ) := [⟨⟨"GET".toList⟩, "/{x}/{x}".toList, 0⟩]

/-- The same with the route `/a/b` beside it. -/
def staticBeside : List (AddCall ℕ) := sameNameTwice ++ [⟨⟨"GET".toList⟩, "/a/b".toList, 1⟩]

/-- The route `/a/b` gets the path `/a/b`, and has no name at all. -/
theorem params_give_back_iff_static :
    ParamsGiveBack (routeList ℕ) staticBeside ⟨"GET".toList⟩ "/a/b".toList := by
  have hapart : HandlersApart (routeList ℕ) staticBeside ⟨"GET".toList⟩ := by
    unfold HandlersApart
    decide
  refine ((params_give_back_iff (routeList_atReportsCaptures ℕ Route.Any) staticBeside
    (fun _ _ => trivial) ⟨"GET".toList⟩ "/a/b".toList).2 hapart).mpr ?_
  intro handler pairs hanswer
  have hstatic : (after (routeList ℕ) staticBeside).treeAnswer ⟨"GET".toList⟩ "/a/b".toList =
      some (1, []) := by decide
  rw [hstatic] at hanswer
  cases hanswer
  decide

/-- `/{x}/{x}` on `/a/b`: the second value replaces the first. -/
theorem params_lose_first :
    (routeList ℕ).AtReportsCaptures Route.Any ∧
    ¬ ParamsGiveBack (routeList ℕ) sameNameTwice ⟨"GET".toList⟩ "/a/b".toList := by
  refine ⟨routeList_atReportsCaptures ℕ Route.Any, ?_⟩
  intro h
  have hok : (after (routeList ℕ) sameNameTwice).matchRoute ⟨"GET".toList⟩ "/a/b".toList =
      .ok (0, HashMap.collect [("x".toList, "b".toList)]) := by decide
  obtain ⟨c, hc, -, -, ps, hps, hspell, -⟩ := h _ _ hok
  have hpattern : ∀ c ∈ registered (routeList ℕ) sameNameTwice,
      c.pattern = "/{x}/{x}".toList := by decide
  rw [hpattern c hc] at hps
  have hparse : Route.parse "/{x}/{x}".toList =
      some [.lit '/', .param "x".toList, .lit '/', .param "x".toList] := by decide
  rw [hparse, Option.some.injEq] at hps
  rw [← hps] at hspell
  exact absurd hspell (by decide)

/-! ### Values that are written into a route -/

/-- **A route that is alone in matching gives the values that were written into it**, each under the name
of its hole. -/
theorem matchRoute_of_fills (hfind : M.AtFindsMatches known) (hcap : M.AtReportsCaptures known)
    {calls : List (AddCall H)} (hknown : ∀ c ∈ calls, known c.pattern) {c : AddCall H}
    (hc : c ∈ registered M calls) {ps : List Piece} {vs : List Str} {path : Str}
    (hps : Route.parse c.pattern = some ps) (hfill : Fills ps vs path)
    (honly : ∀ c' ∈ registered M calls, c'.method = c.method → Route.Matches c'.pattern path →
      c' = c) :
    (after M calls).matchRoute c.method path =
      .ok (c.handler, HashMap.collect ((holeNames ps).zip vs)) := by
  obtain ⟨⟨handler, pairs⟩, hanswer⟩ := Option.isSome_iff_exists.mp
    ((treeAnswer_isSome_iff hfind hknown c.method path).mpr ⟨c, hc, rfl, ps, vs, hps, hfill⟩)
  obtain ⟨c', hc', hmethod, hhandler, hpairs⟩ := treeAnswer_captures hcap hknown hanswer
  have hmatch : Route.Matches c'.pattern path := by
    obtain ⟨ps', vs', hps', hfill', -⟩ := hpairs
    exact ⟨ps', vs', hps', hfill'⟩
  have hsame : c' = c := honly c' hc' hmethod hmatch
  rw [hsame] at hpairs hhandler
  have hwritten : Route.Captures c.pattern path ((holeNames ps).zip vs) := ⟨ps, vs, hps, hfill, rfl⟩
  rw [hpairs.unique hwritten, ← hhandler] at hanswer
  exact (matchRoute_eq_ok_iff _ c.method path (c.handler, _)).mpr ⟨_, hanswer, rfl⟩

end Router

/-- Names that are all different find their values. -/
theorem collect_holes {ps : List Piece} {vs : List Str} {path : Str} (hfill : Fills ps vs path)
    (hnames : (holeNames ps).Nodup) :
    (∀ e ∈ (holeNames ps).zip vs,
      (HashMap.collect ((holeNames ps).zip vs)).get e.1 = some e.2) ∧
    ∀ k, k ∈ (HashMap.collect ((holeNames ps).zip vs)).keys ↔ k ∈ holeNames ps := by
  have hone := HashMap.singleValued_zip hnames vs
  refine ⟨fun e he => hone.get_collect he, fun k => ?_⟩
  rw [HashMap.mem_keys]
  constructor
  · intro h
    obtain ⟨v, hv⟩ := h
    exact (List.of_mem_zip (HashMap.mem_of_get_collect hv)).1
  · intro h
    have hkeys : ((holeNames ps).zip vs).map Prod.fst = holeNames ps :=
      List.map_fst_zip hfill.length_eq.le
    rw [← hkeys] at h
    obtain ⟨e, he, rfl⟩ := List.mem_map.mp h
    exact ⟨e.2, hone.get_collect he⟩

end RustApi
