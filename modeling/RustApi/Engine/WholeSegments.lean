import RustApi.Engine.PathParams
import RustApi.Lib.Splitting

/-!
# `matchesAnyMethod` on patterns of whole segments

The second matcher of the router splits pattern and path at `/` and compares them segment by segment.
It is made for patterns in which every segment is plain text or one parameter, and for these
`Replaced` says what it should accept: the pattern with its parameters replaced by text.

Three languages are given segment by segment (`SegmentFits`) and compared there: the code's answer,
`Replaced`, and the routes of `matchit`.  `matchesAnyMethod_wholeSegments` is the outcome.  The code
accepts what it should, and it accepts more than `matchit` only where a parameter is left empty.

`matchRoute_verdict_wholeSegments_iff` draws the conclusion for the router: with such patterns only, all
of them registered, 404 and 405 are told apart as they should be, except where nothing but an empty
parameter makes a pattern fit.
-/

namespace RustApi

open RustStd StepRuns

/-! ### The language of a pattern -/

/-- The path is the pattern with a value in the place of each `{name}`. -/
inductive Replaced (value : Str → Prop) : Str → Str → Prop
  | nil : Replaced value [] []
  | text {c : Char} {p s : Str} :
      c ≠ '{' → c ≠ '}' → Replaced value p s → Replaced value (c :: p) (c :: s)
  | param {name v p s : Str} :
      '{' ∉ name → '}' ∉ name → value v → Replaced value p s →
        Replaced value ('{' :: (name ++ '}' :: p)) (v ++ s)

/-- What a segment can hold. -/
def SlashFree (v : Str) : Prop := '/' ∉ v

/-- What `matchit` puts in the place of a parameter. -/
def NonemptySegment (v : Str) : Prop := v ≠ [] ∧ '/' ∉ v

/-- Plain text, or one parameter. -/
inductive WholeSegment : Str → Prop
  | text {s : Str} : '{' ∉ s → '}' ∉ s → WholeSegment s
  | param {name : Str} :
      name ≠ [] → '{' ∉ name → '}' ∉ name → '*' ∉ name → WholeSegment ('{' :: (name ++ ['}']))

/-- The name of a parameter is what is left of its segment without the first and last character. -/
theorem wholeSegment_iff (s : Str) :
    WholeSegment s ↔ ('{' ∉ s ∧ '}' ∉ s) ∨ (s = '{' :: (s.tail.dropLast ++ ['}']) ∧
      s.tail.dropLast ≠ [] ∧ '{' ∉ s.tail.dropLast ∧ '}' ∉ s.tail.dropLast ∧
      '*' ∉ s.tail.dropLast) := by
  constructor
  · intro h
    cases h with
    | text hopen hclose => exact .inl ⟨hopen, hclose⟩
    | param hne hopen hclose hstar =>
        rw [List.tail_cons, List.dropLast_concat]
        exact .inr ⟨rfl, hne, hopen, hclose, hstar⟩
  · intro h
    rcases h with ⟨hopen, hclose⟩ | ⟨hs, hne, hopen, hclose, hstar⟩
    · exact .text hopen hclose
    · rw [hs]
      exact .param hne hopen hclose hstar

instance (s : Str) : Decidable (WholeSegment s) := decidable_of_iff _ (wholeSegment_iff s).symm

/-- Every segment of the pattern is whole. -/
def WholeSegments (pattern : Str) : Prop := ∀ seg ∈ pattern.splitOn '/', WholeSegment seg

instance (pattern : Str) : Decidable (WholeSegments pattern) :=
  inferInstanceAs (Decidable (∀ seg ∈ pattern.splitOn '/', WholeSegment seg))

/-- The segment of the path that stands for some parameter is empty. -/
def EmptyParameter (pattern path : Str) : Prop :=
  ∃ name, ('{' :: (name ++ ['}']), []) ∈ (pattern.splitOn '/').zip (path.splitOn '/')

section Replaced

variable {value : Str → Prop}

/-- Text without braces stands for itself. -/
theorem replaced_text_append {s q path : Str} (hopen : '{' ∉ s) (hclose : '}' ∉ s) :
    Replaced value (s ++ q) path ↔ ∃ t, path = s ++ t ∧ Replaced value q t := by
  induction s generalizing path with
  | nil => simp
  | cons c s ih =>
      rw [List.mem_cons, not_or] at hopen hclose
      constructor
      · intro h
        generalize hp : c :: s ++ q = p at h
        cases h with
        | nil => cases hp
        | text _ _ h =>
            obtain ⟨rfl, rfl⟩ := List.cons.inj hp
            obtain ⟨t, rfl, ht⟩ := (ih hopen.2 hclose.2).mp h
            exact ⟨t, rfl, ht⟩
        | param _ _ _ _ => exact absurd (List.cons.inj hp).1.symm hopen.1
      · intro h
        obtain ⟨t, rfl, ht⟩ := h
        exact .text (Ne.symm hopen.1) (Ne.symm hclose.1) ((ih hopen.2 hclose.2).mpr ⟨t, rfl, ht⟩)

theorem replaced_nil (path : Str) : Replaced value [] path ↔ path = [] := by
  constructor
  · intro h
    cases h
    rfl
  · intro h
    rw [h]
    exact .nil

theorem replaced_slash (q path : Str) :
    Replaced value ('/' :: q) path ↔ ∃ t, path = '/' :: t ∧ Replaced value q t :=
  @replaced_text_append value ['/'] q path (by decide) (by decide)

/-- A parameter stands for its value.  Its name ends at the first closing brace. -/
theorem replaced_param_append {name q path : Str} (hopen : '{' ∉ name) (hclose : '}' ∉ name) :
    Replaced value ('{' :: (name ++ '}' :: q)) path ↔
      ∃ v t, path = v ++ t ∧ value v ∧ Replaced value q t := by
  constructor
  · intro h
    generalize hp : '{' :: (name ++ '}' :: q) = p at h
    cases h with
    | nil => cases hp
    | text hc _ _ => exact absurd (List.cons.inj hp).1.symm hc
    | @param name' v q' t _ hclose' hv ht =>
        have hsplit := congrArg (splitOnce '}') (List.cons.inj hp).2
        rw [splitOnce_append hclose, splitOnce_append hclose', Option.some.injEq,
          Prod.mk.injEq] at hsplit
        rw [← hsplit.2] at ht
        exact ⟨v, t, rfl, hv, ht⟩
  · intro h
    obtain ⟨v, t, rfl, hv, ht⟩ := h
    exact .param hopen hclose hv ht

end Replaced

/-! ### Segment by segment -/

/-- A segment of the path fits a segment of the pattern: plain text itself, a parameter any value. -/
inductive SegmentFits (value : Str → Prop) : Str → Str → Prop
  | text {s : Str} : '{' ∉ s → '}' ∉ s → SegmentFits value s s
  | param {name v : Str} : value v → SegmentFits value ('{' :: (name ++ ['}'])) v

section SegmentFits

variable {value : Str → Prop}

theorem segmentFits_text {s t : Str} (hopen : '{' ∉ s) (hclose : '}' ∉ s) :
    SegmentFits value s t ↔ t = s := by
  constructor
  · intro h
    cases h with
    | text _ _ => rfl
    | param _ => exact absurd List.mem_cons_self hopen
  · intro h
    rw [h]
    exact .text hopen hclose

theorem segmentFits_param {name t : Str} :
    SegmentFits value ('{' :: (name ++ ['}'])) t ↔ value t := by
  constructor
  · intro h
    generalize hp : '{' :: (name ++ ['}']) = p at h
    cases h with
    | text hopen _ =>
        rw [← hp] at hopen
        exact absurd List.mem_cons_self hopen
    | param hv => exact hv
  · exact .param

/-- What fits a segment is a segment. -/
theorem SegmentFits.slashFree (hvalue : ∀ v, value v → SlashFree v) {p s : Str}
    (h : SegmentFits value p s) (hp : '/' ∉ p) : '/' ∉ s := by
  cases h with
  | text _ _ => exact hp
  | param hv => exact hvalue _ hv

/-- A whole segment at the front of a pattern is replaced by what fits it. -/
theorem WholeSegment.replaced_append {p q path : Str} (h : WholeSegment p) :
    Replaced value (p ++ q) path ↔
      ∃ s t, path = s ++ t ∧ SegmentFits value p s ∧ Replaced value q t := by
  cases h with
  | text hopen hclose =>
      rw [replaced_text_append hopen hclose]
      simp only [segmentFits_text hopen hclose]
      constructor
      · intro h
        obtain ⟨t, rfl, ht⟩ := h
        exact ⟨p, t, rfl, rfl, ht⟩
      · intro h
        obtain ⟨s, t, rfl, rfl, ht⟩ := h
        exact ⟨t, rfl, ht⟩
  | @param name _ hopen hclose _ =>
      have hassoc : '{' :: (name ++ ['}']) ++ q = '{' :: (name ++ '}' :: q) := by simp
      rw [hassoc, replaced_param_append hopen hclose]
      simp only [segmentFits_param]

/-- **The language of a pattern of whole segments is given segment by segment.** -/
theorem replaced_iff (hvalue : ∀ v, value v → SlashFree v) {pattern : Str}
    (h : WholeSegments pattern) (path : Str) :
    Replaced value pattern path ↔
      List.Forall₂ (SegmentFits value) (pattern.splitOn '/') (path.splitOn '/') := by
  refine forall₂_splitOn_iff replaced_nil replaced_slash ?_ ?_ h path
  · intro p q l _ hwhole _
    exact hwhole.replaced_append
  · intro p s hp _ hfits
    exact hfits.slashFree hvalue hp

end SegmentFits

/-! ### The code's answer -/

/-- The comparison of the code, segment by segment. -/
theorem matchesAnyMethod_iff (pattern path : Str) :
    matchesAnyMethod pattern path = true ↔
      List.Forall₂ (fun p s => (p.head? = some '{' ∧ p.getLast? = some '}') ∨ p = s)
        (pattern.splitOn '/') (path.splitOn '/') := by
  rw [List.forall₂_iff_zip, matchesAnyMethod]
  by_cases hlen : (pattern.splitOn '/').length = (path.splitOn '/').length
  · rw [if_neg (fun h => h hlen), List.all_eq_true]
    simp only [hlen, true_and, Bool.or_eq_true, Bool.and_eq_true, decide_eq_true_eq, Prod.forall]
  · rw [if_pos hlen]
    exact iff_of_false Bool.false_ne_true fun h => hlen h.1

/-- On a whole segment the code lets fit what should fit. -/
theorem WholeSegment.fits_iff {p s : Str} (h : WholeSegment p) (hs : SlashFree s) :
    (p.head? = some '{' ∧ p.getLast? = some '}') ∨ p = s ↔ SegmentFits SlashFree p s := by
  cases h with
  | text hopen hclose =>
      have hhead : p.head? ≠ some '{' := fun hp => hopen (List.mem_of_head? hp)
      rw [segmentFits_text hopen hclose]
      simp [hhead, eq_comm]
  | @param name _ _ _ _ =>
      rw [segmentFits_param]
      have hlast : ('{' :: (name ++ ['}'])).getLast? = some '}' := by
        rw [← List.cons_append, List.getLast?_concat]
      exact iff_of_true (.inl ⟨rfl, hlast⟩) hs

/-- **The code accepts the language of a pattern of whole segments.** -/
theorem matchesAnyMethod_iff_fits {pattern : Str} (h : WholeSegments pattern) (path : Str) :
    matchesAnyMethod pattern path = true ↔
      List.Forall₂ (SegmentFits SlashFree) (pattern.splitOn '/') (path.splitOn '/') := by
  rw [matchesAnyMethod_iff, List.forall₂_iff_zip, List.forall₂_iff_zip]
  refine and_congr_right fun _ => ?_
  have hpair : ∀ {p s : Str}, (p, s) ∈ (pattern.splitOn '/').zip (path.splitOn '/') →
      ((p.head? = some '{' ∧ p.getLast? = some '}') ∨ p = s ↔ SegmentFits SlashFree p s) := by
    intro p s hmem
    exact (h p (List.of_mem_zip hmem).1).fits_iff (notMem_of_mem_splitOn (List.of_mem_zip hmem).2)
  constructor
  · intro hall p s hmem
    exact (hpair hmem).mp (hall hmem)
  · intro hall p s hmem
    exact (hpair hmem).mpr (hall hmem)

/-! ### The routes of `matchit` -/

theorem Fills.append {ps qs : List Piece} {vs ws : List Str} {s t : Str} (h : Fills ps vs s)
    (h' : Fills qs ws t) : Fills (ps ++ qs) (vs ++ ws) (s ++ t) := by
  induction h with
  | nil => exact h'
  | lit _ ih => exact .lit ih
  | @param name v ps vs s hv hslash _ ih =>
      rw [List.append_assoc]
      exact .param hv hslash ih
  | @catchAll name v ps vs s hv _ ih =>
      rw [List.append_assoc]
      exact .catchAll hv ih

/-- What fills two routes, one after the other, is cut where the first one ends. -/
theorem exists_fills_append {ps qs : List Piece} {path : Str} :
    (∃ vs, Fills (ps ++ qs) vs path) ↔
      ∃ s t, path = s ++ t ∧ (∃ vs, Fills ps vs s) ∧ ∃ vs, Fills qs vs t := by
  constructor
  · intro h
    obtain ⟨vs, h⟩ := h
    induction ps generalizing vs path with
    | nil => exact ⟨[], path, rfl, ⟨[], .nil⟩, vs, h⟩
    | cons p ps ih =>
        cases h with
        | lit h =>
            obtain ⟨s, t, rfl, ⟨ws, hs⟩, ht⟩ := ih _ h
            exact ⟨_ :: s, t, rfl, ⟨ws, .lit hs⟩, ht⟩
        | @param name v _ _ _ hv hslash h =>
            obtain ⟨s, t, rfl, ⟨ws, hs⟩, ht⟩ := ih _ h
            exact ⟨v ++ s, t, (List.append_assoc _ _ _).symm, ⟨v :: ws, .param hv hslash hs⟩, ht⟩
        | @catchAll name v _ _ _ hv h =>
            obtain ⟨s, t, rfl, ⟨ws, hs⟩, ht⟩ := ih _ h
            exact ⟨v ++ s, t, (List.append_assoc _ _ _).symm, ⟨v :: ws, .catchAll hv hs⟩, ht⟩
  · intro h
    obtain ⟨s, t, rfl, ⟨vs, hs⟩, ws, ht⟩ := h
    exact ⟨vs ++ ws, hs.append ht⟩

theorem exists_fills_lits {s t : Str} : (∃ vs, Fills (s.map .lit) vs t) ↔ t = s := by
  induction s generalizing t with
  | nil =>
      constructor
      · intro h
        obtain ⟨vs, h⟩ := h
        cases h
        rfl
      · intro h
        rw [h]
        exact ⟨[], .nil⟩
  | cons c s ih =>
      constructor
      · intro h
        obtain ⟨vs, h⟩ := h
        cases h with
        | lit h => rw [ih.mp ⟨vs, h⟩]
      · intro h
        rw [h]
        obtain ⟨vs, hs⟩ := ih.mpr rfl
        exact ⟨vs, .lit hs⟩

theorem exists_fills_param {name t : Str} :
    (∃ vs, Fills [.param name] vs t) ↔ NonemptySegment t := by
  constructor
  · intro h
    obtain ⟨vs, h⟩ := h
    cases h with
    | param hv hslash h =>
        cases h
        rw [List.append_nil]
        exact ⟨hv, hslash⟩
  · intro h
    have hfill : Fills [.param name] [t] (t ++ []) := .param h.1 h.2 .nil
    rw [List.append_nil] at hfill
    exact ⟨[t], hfill⟩

/-- Text without braces is read as it is. -/
theorem unescape_text_append {s rest : Str} (hopen : '{' ∉ s) (hclose : '}' ∉ s) :
    Route.unescape (s ++ rest) = s.map (·, false) ++ Route.unescape rest := by
  induction s with
  | nil => rfl
  | cons c s ih =>
      rw [List.mem_cons, not_or] at hopen hclose
      rw [List.cons_append, Route.unescape, ih hopen.2 hclose.2]
      · rfl
      · intro _ hc
        exact absurd hc.symm hopen.1
      · intro _ hc
        exact absurd hc.symm hclose.1

theorem unescape_open {c : Char} {s : Str} (hc : c ≠ '{') :
    Route.unescape ('{' :: c :: s) = ('{', false) :: Route.unescape (c :: s) := by
  rw [Route.unescape]
  · intro t _ ht
    exact hc (List.cons.inj ht).1
  · intro _ h
    exact absurd h (by decide)

theorem unescape_close {rest : Str} (h : EndsSegment rest) :
    Route.unescape ('}' :: rest) = ('}', false) :: Route.unescape rest := by
  rw [Route.unescape]
  · intro _ hc
    exact absurd hc (by decide)
  · intro t _ ht
    rw [ht] at h
    rcases h with h | h
    · cases h
    · exact absurd (Option.some.inj h) (by decide)

/-- Behind a hole that ends its segment the next segment is read as any other. -/
theorem pieces_unescape_held {rest : Str} (h : EndsSegment rest) :
    Route.pieces true none (Route.unescape rest) = Route.pieces false none (Route.unescape rest) := by
  cases rest with
  | nil => rfl
  | cons c rest =>
      rcases h with h | h
      · cases h
      · obtain rfl := Option.some.inj h
        have hslash : Route.unescape ('/' :: rest) = ('/', false) :: Route.unescape rest := by
          rw [Route.unescape]
          · intro _ hc
            exact absurd hc (by decide)
          · intro _ hc
            exact absurd hc (by decide)
        rw [hslash]
        rfl

theorem pieces_text_append {s : Str} (hopen : '{' ∉ s) (hclose : '}' ∉ s)
    (r : List (Char × Bool)) :
    Route.pieces false none (s.map (·, false) ++ r) =
      (Route.pieces false none r).map (s.map .lit ++ ·) := by
  induction s with
  | nil => simp
  | cons c s ih =>
      rw [List.mem_cons, not_or] at hopen hclose
      rw [List.map_cons, List.cons_append, Route.pieces, Bool.false_and, ih hopen.2 hclose.2,
        Option.map_map]
      · rfl
      · intro hc _
        exact absurd hc.symm hopen.1
      · intro hc _
        exact absurd hc.symm hclose.1

theorem pieces_name_append {name read : Str} (hclose : '}' ∉ name) (r : List (Char × Bool)) :
    Route.pieces false (some read) (name.map (·, false) ++ r) =
      Route.pieces false (some (read ++ name)) r := by
  induction name generalizing read with
  | nil => simp
  | cons c name ih =>
      rw [List.mem_cons, not_or] at hclose
      rw [List.map_cons, List.cons_append, Route.pieces, ih hclose.2, List.append_assoc]
      · rfl
      · intro hc _
        exact absurd hc.symm hclose.1

theorem hole_param {name : Str} {r : List (Char × Bool)} (hne : name ≠ []) (hstar : '*' ∉ name)
    (hslash : '/' ∉ name) : Route.hole name r = some (.param name) := by
  unfold Route.hole
  split
  · exact absurd rfl hne
  · exact absurd List.mem_cons_self hstar
  · rw [if_pos ⟨hstar, hslash⟩]

/-- Text without braces at the front of a route is read as itself. -/
theorem parse_text_append {s : Str} (hopen : '{' ∉ s) (hclose : '}' ∉ s) (rest : Str) :
    Route.parse (s ++ rest) = (Route.parse rest).map (s.map .lit ++ ·) := by
  rw [Route.parse, unescape_text_append hopen hclose, pieces_text_append hopen hclose]
  rfl

/-- So is a parameter that fills its segment: its name is read up to the closing brace. -/
theorem parse_param_append {name rest : Str} (hne : name ≠ []) (hopen : '{' ∉ name)
    (hclose : '}' ∉ name) (hstar : '*' ∉ name) (hslash : '/' ∉ name) (hrest : EndsSegment rest) :
    Route.parse ('{' :: (name ++ '}' :: rest)) = (Route.parse rest).map ([.param name] ++ ·) := by
  have hunescape : Route.unescape ('{' :: (name ++ '}' :: rest)) =
      ('{', false) :: (name.map (·, false) ++ ('}', false) :: Route.unescape rest) := by
    obtain ⟨c, cs, rfl⟩ := List.exists_cons_of_ne_nil hne
    have hc : c ≠ '{' := fun hc => hopen (by rw [hc]; exact List.mem_cons_self)
    rw [List.cons_append, unescape_open hc, ← List.cons_append,
      unescape_text_append hopen hclose, unescape_close hrest]
  have hhole : Route.hole name (Route.unescape rest) = some (.param name) :=
    hole_param hne hstar hslash
  rw [Route.parse, hunescape, Route.pieces, if_neg Bool.false_ne_true, pieces_name_append hclose,
    List.nil_append, Route.pieces, hhole]
  exact congrArg (Option.map _) (pieces_unescape_held hrest)

/-- A whole segment is read as pieces that what fits it fills. -/
theorem WholeSegment.exists_pieces {p : Str} (h : WholeSegment p) (hp : '/' ∉ p) :
    ∃ ps, (∀ rest, EndsSegment rest →
        Route.parse (p ++ rest) = (Route.parse rest).map (ps ++ ·)) ∧
      ∀ s, (∃ vs, Fills ps vs s) ↔ SegmentFits NonemptySegment p s := by
  cases h with
  | text hopen hclose =>
      refine ⟨p.map .lit, fun rest _ => parse_text_append hopen hclose rest, ?_⟩
      intro s
      rw [exists_fills_lits, segmentFits_text hopen hclose]
  | @param name hne hopen hclose hstar =>
      refine ⟨[.param name], ?_, fun s => exists_fills_param.trans segmentFits_param.symm⟩
      intro rest hrest
      have hslash : '/' ∉ name := fun hmem =>
        hp (List.mem_cons_of_mem _ (List.mem_append_left _ hmem))
      have hassoc : '{' :: (name ++ ['}']) ++ rest = '{' :: (name ++ '}' :: rest) := by simp
      rw [hassoc]
      exact parse_param_append hne hopen hclose hstar hslash hrest

/-- A route that is read piece by piece matches what its front fills, and its rest matches. -/
theorem matches_append {p rest path : Str} {ps : List Piece}
    (h : Route.parse (p ++ rest) = (Route.parse rest).map (ps ++ ·)) :
    Route.Matches (p ++ rest) path ↔
      ∃ s t, path = s ++ t ∧ (∃ vs, Fills ps vs s) ∧ Route.Matches rest t := by
  unfold Route.Matches
  rw [h]
  cases Route.parse rest with
  | none => simp
  | some qs =>
      simp only [Option.map_some, Option.some.injEq, exists_and_left, exists_eq_left']
      exact exists_fills_append

theorem matches_nil (path : Str) : Route.Matches [] path ↔ path = [] := by
  constructor
  · intro h
    obtain ⟨ps, vs, hps, h⟩ := h
    cases hps
    cases h
    rfl
  · intro h
    rw [h]
    exact ⟨[], [], rfl, .nil⟩

theorem matches_slash (q path : Str) :
    Route.Matches ('/' :: q) path ↔ ∃ t, path = '/' :: t ∧ Route.Matches q t := by
  have hread := @matches_append ['/'] q path _ (parse_text_append (by decide) (by decide) q)
  simp only [exists_fills_lits] at hread
  refine hread.trans ?_
  constructor
  · intro h
    obtain ⟨s, t, rfl, rfl, ht⟩ := h
    exact ⟨t, rfl, ht⟩
  · intro h
    obtain ⟨t, rfl, ht⟩ := h
    exact ⟨['/'], t, rfl, rfl, ht⟩

/-- **A route of whole segments matches segment by segment.** -/
theorem matches_iff_fits {pattern : Str} (h : WholeSegments pattern) (path : Str) :
    Route.Matches pattern path ↔
      List.Forall₂ (SegmentFits NonemptySegment) (pattern.splitOn '/') (path.splitOn '/') := by
  refine forall₂_splitOn_iff matches_nil matches_slash ?_ ?_ h path
  · intro p q l hp hwhole hq
    obtain ⟨ps, hparse, hfill⟩ := hwhole.exists_pieces hp
    rw [matches_append (hparse q hq)]
    simp only [hfill]
  · intro p s hp _ hfits
    exact hfits.slashFree (fun v hv => hv.2) hp

/-! ### The two matchers -/

/-- What the code lets fit and `matchit` does not is an empty value of a parameter. -/
theorem segmentFits_nonempty_iff {p s : Str} (h : SegmentFits SlashFree p s) :
    SegmentFits NonemptySegment p s ↔ ¬ ∃ name, p = '{' :: (name ++ ['}']) ∧ s = [] := by
  cases h with
  | text hopen hclose =>
      refine iff_of_true (.text hopen hclose) ?_
      intro hempty
      obtain ⟨name, rfl, -⟩ := hempty
      exact hopen List.mem_cons_self
  | @param name _ hv =>
      rw [segmentFits_param]
      constructor
      · intro hne hempty
        obtain ⟨-, -, hs⟩ := hempty
        exact hne.1 hs
      · intro hempty
        exact ⟨fun hs => hempty ⟨name, rfl, hs⟩, hv⟩

/-- Where the code accepts, `matchit` rejects exactly when a parameter is left empty. -/
theorem not_matches_iff {pattern path : Str} (h : WholeSegments pattern)
    (hcode : matchesAnyMethod pattern path = true) :
    ¬ Route.Matches pattern path ↔ EmptyParameter pattern path := by
  rw [matchesAnyMethod_iff_fits h, List.forall₂_iff_zip] at hcode
  rw [matches_iff_fits h, List.forall₂_iff_zip, not_and]
  constructor
  · intro hno
    by_contra hempty
    refine hno hcode.1 ?_
    intro p s hmem
    rw [segmentFits_nonempty_iff (hcode.2 hmem)]
    intro hex
    obtain ⟨name, rfl, rfl⟩ := hex
    exact hempty ⟨name, hmem⟩
  · intro hempty _ hall
    obtain ⟨name, hmem⟩ := hempty
    exact (segmentFits_nonempty_iff (hcode.2 hmem)).mp (hall hmem) ⟨name, rfl, rfl⟩

/-- What fits a segment for `matchit` fits it for the code. -/
theorem matchesAnyMethod_of_matches {pattern path : Str} (h : WholeSegments pattern)
    (hmatch : Route.Matches pattern path) : matchesAnyMethod pattern path = true := by
  rw [matches_iff_fits h] at hmatch
  rw [matchesAnyMethod_iff_fits h]
  refine hmatch.imp ?_
  intro p s hfits
  cases hfits with
  | text hopen hclose => exact .text hopen hclose
  | param hv => exact .param hv.2

/-- **On patterns of whole segments the code accepts the pattern with its parameters replaced, and it
accepts more than `matchit` exactly where a parameter is left empty.** -/
theorem matchesAnyMethod_wholeSegments {pattern : Str} (h : WholeSegments pattern) (path : Str) :
    (matchesAnyMethod pattern path = true ↔ Replaced SlashFree pattern path) ∧
    (Route.Matches pattern path ↔ Replaced NonemptySegment pattern path) ∧
    (Route.Matches pattern path → matchesAnyMethod pattern path = true) ∧
    (matchesAnyMethod pattern path = true →
      (¬ Route.Matches pattern path ↔ EmptyParameter pattern path)) := by
  refine ⟨?_, ?_, matchesAnyMethod_of_matches h, not_matches_iff h⟩
  · rw [matchesAnyMethod_iff_fits h, replaced_iff (fun v hv => hv) h]
  · rw [matches_iff_fits h, replaced_iff (fun v hv => hv.2) h]

/-- `/users/{id}/` on `/users//`: the code accepts, with the parameter empty. -/
theorem matchesAnyMethod_wholeSegments_users :
    Replaced SlashFree "/users/{id}/".toList "/users//".toList ∧
      ¬ Route.Matches "/users/{id}/".toList "/users//".toList := by
  have hwhole : WholeSegments "/users/{id}/".toList := by decide
  obtain ⟨hcode, -, -, hgap⟩ := matchesAnyMethod_wholeSegments hwhole "/users//".toList
  have haccept : matchesAnyMethod "/users/{id}/".toList "/users//".toList = true := by decide
  exact ⟨hcode.mp haccept, (hgap haccept).mpr ⟨"id".toList, by decide⟩⟩

/-! ### The router -/

namespace Router

variable {H : Type} {M : Matchit H} {known : Str → Prop}

/-- **With registered patterns of whole segments the router answers as intended**, except on a path
that no route matches and some pattern fits with a parameter left empty. -/
theorem matchRoute_verdict_wholeSegments_iff (hM : M.AtFindsMatches known)
    {calls : List (AddCall H)} (hknown : ∀ c ∈ calls, known c.pattern)
    (hwhole : ∀ c ∈ calls, WholeSegments c.pattern)
    (hreg : ∀ c ∈ calls, ∃ c' ∈ registered M calls, c'.pattern = c.pattern) (m : Method)
    (path : Str) :
    verdict ((after M calls).matchRoute m path) = intended (registered M calls) m path ↔
      Serves (registered M calls) path ∨
        ∀ c ∈ calls, matchesAnyMethod c.pattern path = true → ¬ EmptyParameter c.pattern path := by
  rw [matchRoute_verdict_iff hM hknown m path]
  constructor
  · intro h
    by_cases hs : Serves (registered M calls) path
    · exact .inl hs
    · refine .inr ?_
      intro c hc hfit _
      rcases h with hmethod | hsame
      · exact hs hmethod.serves
      · exact hs (hsame.mp ⟨c, hc, hfit⟩)
  · intro h
    refine .inr ⟨?_, ?_⟩
    · intro hsug
      obtain ⟨c, hc, hfit⟩ := hsug
      rcases h with hs | hfull
      · exact hs
      · have hmatch : Route.Matches c.pattern path := by
          by_contra hno
          exact hfull c hc hfit ((not_matches_iff (hwhole c hc) hfit).mp hno)
        obtain ⟨c', hc', hpattern⟩ := hreg c hc
        exact ⟨c', hc', by rwa [hpattern]⟩
    · intro hs
      obtain ⟨c, hc, hmatch⟩ := hs
      have hmem : c ∈ calls := mem_of_mem_accepted hc
      exact ⟨c, hmem, matchesAnyMethod_of_matches (hwhole c hmem) hmatch⟩

/-- Users are read by number and made at the collection. -/
def usersTable : List (AddCall ℕ) :=
  [⟨⟨"GET".toList⟩, "/users/{id}".toList, 0⟩, ⟨⟨"POST".toList⟩, "/users".toList, 1⟩]

/-- `DELETE /users/42` is not allowed, and that is what it should be. -/
theorem matchRoute_verdict_wholeSegments_iff_users :
    verdict ((after (routeList ℕ) usersTable).matchRoute ⟨"DELETE".toList⟩ "/users/42".toList) =
      .methodNotAllowed := by
  have hserves : Serves (registered (routeList ℕ) usersTable) "/users/42".toList := by decide
  have hverdict := (matchRoute_verdict_wholeSegments_iff (routeList_atFindsMatches ℕ Route.Any)
    (fun _ _ => trivial) (by decide) (by decide) ⟨"DELETE".toList⟩ "/users/42".toList).mpr
    (.inl hserves)
  rw [hverdict]
  decide

end Router

end RustApi
