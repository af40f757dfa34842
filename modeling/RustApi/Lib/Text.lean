import Mathlib.Data.List.Basic

/-!
# Rust strings, their UTF-8 bytes, and the string operations of the standard library

A Rust `str` is a sequence of Unicode scalar values and a Lean `Char` is exactly one, so `Str` is a
list of characters; `utf8` gives the bytes `str::as_bytes` shows.  `str::split(c)` is Lean's
`List.splitOn c` (both return one empty piece for the empty string), `splitOnce` is
`str::split_once` for a character, and `fromUtf8Lossy` is `String::from_utf8_lossy`.

`fromUtf8Lossy` replaces every maximal part that begins a character but cannot complete one by a
single U+FFFD and resumes after it.  Its one law used here is `fromUtf8Lossy_utf8`: on the encoding
of a string nothing is replaced.

`fromUtf8` is `String::from_utf8`, which stops there with an error.  It accepts encoded text and nothing
else (`fromUtf8_eq_ok_iff`), and its error says how far the text goes (`fromUtf8_error`).
-/

namespace RustStd

/-- A Rust `str` or `String`. -/
abbrev Str := List Char

/-- A Rust byte slice, `Vec<u8>` or `Bytes`. -/
abbrev Bytes := List UInt8

/-- `str::as_bytes`. -/
def utf8 (s : Str) : Bytes := s.flatMap String.utf8EncodeChar

@[simp] theorem utf8_nil : utf8 [] = [] := rfl

@[simp] theorem utf8_cons (c : Char) (s : Str) :
    utf8 (c :: s) = String.utf8EncodeChar c ++ utf8 s := rfl

@[simp] theorem utf8_append (s t : Str) : utf8 (s ++ t) = utf8 s ++ utf8 t :=
  List.flatMap_append

/-- An ASCII character is one byte, its code. -/
theorem utf8EncodeChar_ascii {c : Char} (h : c.toNat < 128) :
    String.utf8EncodeChar c = [UInt8.ofNat c.toNat] := by
  have hle : c.val.toNat ≤ 127 := by
    have : c.toNat = c.val.toNat := rfl
    omega
  simp only [String.utf8EncodeChar, if_pos hle]
  rfl

/-- Every byte of a character outside ASCII is at least 128. -/
theorem le_of_mem_utf8EncodeChar {c : Char} (h : 128 ≤ c.toNat) {b : UInt8}
    (hb : b ∈ String.utf8EncodeChar c) : 128 ≤ b.toNat := by
  have hgt : ¬ c.val.toNat ≤ 127 := by
    have : c.toNat = c.val.toNat := rfl
    omega
  simp only [String.utf8EncodeChar, if_neg hgt] at hb
  split at hb
  · simp only [List.mem_cons, List.not_mem_nil, or_false] at hb
    rcases hb with rfl | rfl <;> simp only [UInt8.toNat_ofNat'] <;> omega
  · split at hb
    · simp only [List.mem_cons, List.not_mem_nil, or_false] at hb
      rcases hb with rfl | rfl | rfl <;> simp only [UInt8.toNat_ofNat'] <;> omega
    · simp only [List.mem_cons, List.not_mem_nil, or_false] at hb
      rcases hb with rfl | rfl | rfl | rfl <;> simp only [UInt8.toNat_ofNat'] <;> omega

/-- **An ASCII byte stands for its character only.** -/
theorem ofNat_mem_utf8 {d : Char} (hd : d.toNat < 128) {s : Str} :
    UInt8.ofNat d.toNat ∈ utf8 s ↔ d ∈ s := by
  simp only [utf8, List.mem_flatMap]
  constructor
  · intro h
    obtain ⟨c, hc, hmem⟩ := h
    by_cases hascii : c.toNat < 128
    · rw [utf8EncodeChar_ascii hascii, List.mem_singleton] at hmem
      have hnat := congrArg UInt8.toNat hmem
      simp only [UInt8.toNat_ofNat'] at hnat
      have heq : c.toNat = d.toNat := by omega
      rwa [← Char.toNat_inj.mp heq]
    · have hle := le_of_mem_utf8EncodeChar (by omega) hmem
      simp only [UInt8.toNat_ofNat'] at hle
      omega
  · intro h
    exact ⟨d, h, by rw [utf8EncodeChar_ascii hd]; exact List.mem_singleton_self _⟩

/-! ### Splitting at the first separator -/

/-- `str::split_once(c)`: the text before and after the first `c`. -/
def splitOnce {α : Type*} [DecidableEq α] (c : α) : List α → Option (List α × List α)
  | [] => none
  | x :: xs => if x = c then some ([], xs) else (splitOnce c xs).map fun p => (x :: p.1, p.2)

theorem splitOnce_append {α : Type*} [DecidableEq α] {c : α} {k : List α} (h : c ∉ k)
    (v : List α) : splitOnce c (k ++ c :: v) = some (k, v) := by
  induction k with
  | nil => simp [splitOnce]
  | cons x xs ih =>
      have hx : x ≠ c := fun hxc => h (by simp [hxc])
      have hxs : c ∉ xs := fun hmem => h (List.mem_cons_of_mem x hmem)
      simp [splitOnce, hx, ih hxs]

/-! ### Collecting options -/

/-- `iter.collect::<Option<Vec<_>>>()`: all the values, or `none` if one is missing. -/
def collectSome {α : Type*} : List (Option α) → Option (List α)
  | [] => some []
  | none :: _ => none
  | some a :: xs => (collectSome xs).map (a :: ·)

theorem collectSome_eq_some {α : Type*} {xs : List (Option α)} {as : List α} :
    collectSome xs = some as ↔ xs = as.map some := by
  induction xs generalizing as with
  | nil => cases as <;> simp [collectSome]
  | cons x xs ih =>
      cases x with
      | none => cases as <;> simp [collectSome]
      | some a =>
          rw [collectSome, Option.map_eq_some_iff]
          constructor
          · intro h
            obtain ⟨bs, hbs, hcons⟩ := h
            rw [← hcons, ih.mp hbs, List.map_cons]
          · intro h
            cases as with
            | nil => cases h
            | cons b bs =>
                rw [List.map_cons, List.cons.injEq, Option.some.injEq] at h
                exact ⟨bs, ih.mpr h.2, by rw [h.1]⟩

/-! ### Lossy decoding -/

/-- A byte of the form `10xxxxxx`. -/
def isContinuation (b : UInt8) : Bool := 0x80 ≤ b.toNat && b.toNat ≤ 0xBF

/-- May `c` follow the leading byte `b` of a three-byte or four-byte character? -/
def isSecondByte (b c : UInt8) : Bool :=
  (b.toNat = 0xE0 && 0xA0 ≤ c.toNat && c.toNat ≤ 0xBF)
    || (0xE1 ≤ b.toNat && b.toNat ≤ 0xEC && isContinuation c)
    || (b.toNat = 0xED && 0x80 ≤ c.toNat && c.toNat ≤ 0x9F)
    || (0xEE ≤ b.toNat && b.toNat ≤ 0xEF && isContinuation c)
    || (b.toNat = 0xF0 && 0x90 ≤ c.toNat && c.toNat ≤ 0xBF)
    || (0xF1 ≤ b.toNat && b.toNat ≤ 0xF3 && isContinuation c)
    || (b.toNat = 0xF4 && 0x80 ≤ c.toNat && c.toNat ≤ 0x8F)

/-- Where no character starts at `b :: bs`: how many bytes one replacement character stands for, the
longest part that could still have begun a character. -/
def brokenLength (b : UInt8) : Bytes → ℕ
  | [] => 1
  | [c] => if isSecondByte b c then 2 else 1
  | c :: d :: _ =>
      if isSecondByte b c then (if 0xF0 ≤ b.toNat && isContinuation d then 3 else 2) else 1

/-- The decoding loop.  Every round consumes a byte, so `fuel` bytes need at most `fuel` rounds. -/
def fromUtf8LossyLoop : ℕ → Bytes → Str
  | 0, _ => []
  | _ + 1, [] => []
  | fuel + 1, b :: bs =>
      match (b :: bs).toByteArray.utf8DecodeChar? 0 with
      | some c => c :: fromUtf8LossyLoop fuel ((b :: bs).drop c.utf8Size)
      | none => '\uFFFD' :: fromUtf8LossyLoop fuel ((b :: bs).drop (brokenLength b bs))

/-- `String::from_utf8_lossy`. -/
def fromUtf8Lossy (bs : Bytes) : Str := fromUtf8LossyLoop bs.length bs

theorem fromUtf8LossyLoop_cons (fuel : ℕ) (c : Char) (rest : Bytes) :
    fromUtf8LossyLoop (fuel + 1) (String.utf8EncodeChar c ++ rest) =
      c :: fromUtf8LossyLoop fuel rest := by
  have hdec : (String.utf8EncodeChar c ++ rest).toByteArray.utf8DecodeChar? 0 = some c := by
    rw [List.toByteArray_append]
    exact ByteArray.utf8DecodeChar?_utf8EncodeChar_append
  have hlen : (String.utf8EncodeChar c).length = c.utf8Size := String.length_utf8EncodeChar c
  have hdrop : (String.utf8EncodeChar c ++ rest).drop c.utf8Size = rest := by
    rw [← hlen, List.drop_left]
  cases hbs : String.utf8EncodeChar c ++ rest with
  | nil =>
      have hpos := Char.utf8Size_pos c
      have hzero := congrArg List.length hbs
      rw [List.length_append, hlen, List.length_nil] at hzero
      omega
  | cons b bs =>
      rw [hbs] at hdec hdrop
      rw [fromUtf8LossyLoop, hdec]
      simp only [hdrop]

theorem fromUtf8LossyLoop_utf8 (s : Str) (fuel : ℕ) (h : (utf8 s).length ≤ fuel) :
    fromUtf8LossyLoop fuel (utf8 s) = s := by
  induction s generalizing fuel with
  | nil => cases fuel <;> rfl
  | cons c s ih =>
      have hpos := Char.utf8Size_pos c
      rw [utf8_cons, List.length_append, String.length_utf8EncodeChar] at h
      obtain ⟨n, rfl⟩ : ∃ n, fuel = n + 1 := ⟨fuel - 1, by omega⟩
      rw [utf8_cons, fromUtf8LossyLoop_cons, ih n (by omega)]

/-- **Lossy decoding is the identity on encoded text.** -/
theorem fromUtf8Lossy_utf8 (s : Str) : fromUtf8Lossy (utf8 s) = s :=
  fromUtf8LossyLoop_utf8 s _ (Nat.le_refl _)

/-- A character cut short by another one costs one replacement character. -/
example : fromUtf8Lossy [0x41, 0xE2, 0x82, 0x41] = ['A', '\uFFFD', 'A'] := by decide

/-! ### Strict decoding -/

/-- `std::str::Utf8Error`: the bytes before `validUpTo` are text; `errorLen` is the number of bytes that
cannot be read there, or `none` where the input ends within a character. -/
structure Utf8Error where
  validUpTo : ℕ
  errorLen : Option ℕ
  deriving DecidableEq, Repr

def Utf8Error.display (e : Utf8Error) : Str :=
  match e.errorLen with
  | some n => "invalid utf-8 sequence of ".toList ++ Nat.toDigits 10 n ++ " bytes from index ".toList ++
      Nat.toDigits 10 e.validUpTo
  | none => "incomplete utf-8 byte sequence from index ".toList ++ Nat.toDigits 10 e.validUpTo

/-- A byte that begins a character of several bytes. -/
def isLeadByte (b : UInt8) : Bool := 0xC2 ≤ b.toNat && b.toNat ≤ 0xF4

/-- The error where no character starts at `b :: bs`, which is `n` bytes in. -/
def utf8ErrorAt (n : ℕ) (b : UInt8) (bs : Bytes) : Utf8Error where
  validUpTo := n
  errorLen := if isLeadByte b && brokenLength b bs = bs.length + 1 then none
    else some (brokenLength b bs)

/-- The validating loop, `n` bytes in. -/
def fromUtf8Loop : ℕ → ℕ → Bytes → Except Utf8Error Str
  | 0, _, _ => .ok []
  | _ + 1, _, [] => .ok []
  | fuel + 1, n, b :: bs =>
      match (b :: bs).toByteArray.utf8DecodeChar? 0 with
      | some c => do
          let s ← fromUtf8Loop fuel (n + c.utf8Size) ((b :: bs).drop c.utf8Size)
          pure (c :: s)
      | none => .error (utf8ErrorAt n b bs)

/-- `String::from_utf8`. -/
def fromUtf8 (bs : Bytes) : Except Utf8Error Str := fromUtf8Loop bs.length 0 bs

/-- What begins with a character is the encoding of the character and the rest. -/
theorem eq_append_of_decode {bs : Bytes} {c : Char}
    (h : bs.toByteArray.utf8DecodeChar? 0 = some c) :
    bs = String.utf8EncodeChar c ++ bs.drop c.utf8Size := by
  obtain ⟨l, hl⟩ := ByteArray.exists_of_utf8DecodeChar?_eq_some h
  have hbs : bs = String.utf8EncodeChar c ++ l.data.toList := by
    have hdata := congrArg (fun a => a.data.toList) hl
    simpa using hdata
  have hlen : (String.utf8EncodeChar c).length = c.utf8Size := String.length_utf8EncodeChar c
  have hdrop : bs.drop c.utf8Size = l.data.toList := by
    rw [hbs, ← hlen, List.drop_left]
  rw [hdrop]
  exact hbs

/-- **No character's encoding begins another's.** -/
theorem utf8EncodeChar_append_inj {c d : Char} {bs bs' : Bytes}
    (h : String.utf8EncodeChar c ++ bs = String.utf8EncodeChar d ++ bs') : c = d ∧ bs = bs' := by
  have hdec : ∀ (c : Char) (bs : Bytes),
      (String.utf8EncodeChar c ++ bs).toByteArray.utf8DecodeChar? 0 = some c := by
    intro c bs
    rw [List.toByteArray_append]
    exact ByteArray.utf8DecodeChar?_utf8EncodeChar_append
  have hc := hdec c bs
  rw [h, hdec, Option.some.injEq] at hc
  subst hc
  exact ⟨rfl, List.append_cancel_left h⟩

/-- Of two texts that the same bytes begin with, one begins with the other. -/
theorem utf8_append_cases {s t : Str} {bs bs' : Bytes} (h : utf8 s ++ bs = utf8 t ++ bs') :
    (∃ u, t = s ++ u ∧ bs = utf8 u ++ bs') ∨ ∃ u, s = t ++ u ∧ bs' = utf8 u ++ bs := by
  induction s generalizing t with
  | nil => exact .inl ⟨t, rfl, h⟩
  | cons c s ih =>
      cases t with
      | nil => exact .inr ⟨c :: s, rfl, h.symm⟩
      | cons d t =>
          rw [utf8_cons, utf8_cons, List.append_assoc, List.append_assoc] at h
          obtain ⟨rfl, hrest⟩ := utf8EncodeChar_append_inj h
          rcases ih hrest with ⟨u, rfl, hu⟩ | ⟨u, rfl, hu⟩
          · exact .inl ⟨u, rfl, hu⟩
          · exact .inr ⟨u, rfl, hu⟩

/-- What begins no character begins no text. -/
theorem eq_nil_of_decode {bs bs' : Bytes} {u : Str} (h : bs.toByteArray.utf8DecodeChar? 0 = none)
    (hbs : bs = utf8 u ++ bs') : u = [] := by
  cases u with
  | nil => rfl
  | cons c u =>
      rw [hbs, utf8_cons, List.append_assoc, List.toByteArray_append,
        ByteArray.utf8DecodeChar?_utf8EncodeChar_append] at h
      cases h

theorem fromUtf8Loop_spec (fuel n : ℕ) {bs : Bytes} (h : bs.length ≤ fuel) :
    (∃ s, bs = utf8 s ∧ fromUtf8Loop fuel n bs = .ok s) ∨
      ∃ s b rest, bs = utf8 s ++ b :: rest ∧ (b :: rest).toByteArray.utf8DecodeChar? 0 = none ∧
        fromUtf8Loop fuel n bs = .error (utf8ErrorAt (n + (utf8 s).length) b rest) := by
  induction fuel generalizing n bs with
  | zero => exact .inl ⟨[], List.eq_nil_of_length_eq_zero (by omega), rfl⟩
  | succ fuel ih =>
      cases bs with
      | nil => exact .inl ⟨[], rfl, rfl⟩
      | cons b bs =>
          rw [fromUtf8Loop]
          cases hdec : (b :: bs).toByteArray.utf8DecodeChar? 0 with
          | none => exact .inr ⟨[], b, bs, rfl, hdec, rfl⟩
          | some c =>
              have hcut := eq_append_of_decode hdec
              have hpos := Char.utf8Size_pos c
              have hsize : (String.utf8EncodeChar c).length = c.utf8Size :=
                String.length_utf8EncodeChar c
              have hlen : ((b :: bs).drop c.utf8Size).length ≤ fuel := by
                rw [List.length_drop]
                omega
              rcases ih (n + c.utf8Size) hlen with ⟨s, hs, hloop⟩ | ⟨s, b', rest, hs, hnone, hloop⟩
              · refine .inl ⟨c :: s, ?_, ?_⟩
                · rw [utf8_cons, ← hs, ← hcut]
                · simp only [hloop]
                  rfl
              · refine .inr ⟨c :: s, b', rest, ?_, hnone, ?_⟩
                · rw [utf8_cons, List.append_assoc, ← hs, ← hcut]
                · simp only [hloop]
                  rw [utf8_cons, List.length_append, hsize, ← Nat.add_assoc]
                  rfl

/-- **Strict decoding accepts encoded text, and nothing else.** -/
theorem fromUtf8_eq_ok_iff {bs : Bytes} {s : Str} : fromUtf8 bs = .ok s ↔ bs = utf8 s := by
  have hinj : ∀ {s t : Str}, utf8 s = utf8 t → s = t := by
    intro s t h
    rw [← fromUtf8Lossy_utf8 s, h, fromUtf8Lossy_utf8]
  rcases fromUtf8Loop_spec bs.length 0 (Nat.le_refl bs.length) with
    ⟨t, ht, hloop⟩ | ⟨t, b, rest, ht, hnone, hloop⟩
  · rw [fromUtf8, hloop, Except.ok.injEq, ht]
    exact ⟨fun h => by rw [h], fun h => hinj h⟩
  · rw [fromUtf8, hloop]
    refine iff_of_false (fun h => by cases h) ?_
    intro h
    rw [h, ← List.append_nil (utf8 s)] at ht
    rcases utf8_append_cases ht with ⟨u, -, hu⟩ | ⟨u, -, hu⟩
    · cases u <;> simp at hu
    · rw [eq_nil_of_decode hnone hu] at hu
      cases hu

/-- **The error says how far the text goes**: what stands before it is text, and the bytes begin with no
longer text. -/
theorem fromUtf8_error {bs : Bytes} {e : Utf8Error} (h : fromUtf8 bs = .error e) :
    ∃ s b rest, bs = utf8 s ++ b :: rest ∧ e = utf8ErrorAt (utf8 s).length b rest ∧
      ∀ t rest', bs = utf8 t ++ rest' → t <+: s := by
  rcases fromUtf8Loop_spec bs.length 0 (Nat.le_refl bs.length) with
    ⟨t, ht, hloop⟩ | ⟨s, b, rest, hs, hnone, hloop⟩
  · rw [fromUtf8, hloop] at h
    cases h
  · rw [fromUtf8, hloop, Nat.zero_add] at h
    refine ⟨s, b, rest, hs, (Except.error.inj h).symm, ?_⟩
    intro t rest' ht
    rcases utf8_append_cases (hs.symm.trans ht) with ⟨u, rfl, hu⟩ | ⟨u, rfl, -⟩
    · simp [eq_nil_of_decode hnone hu]
    · exact List.prefix_append t u

/-- A character cut short by another one, and one cut short by the end. -/
example : fromUtf8 [0x41, 0xE2, 0x82, 0x41] = .error ⟨1, some 2⟩ ∧
    fromUtf8 [0x41, 0xE2, 0x82] = .error ⟨1, none⟩ := by decide

end RustStd
