import Mathlib.Data.List.Basic
import RustApi.Lib.HashMap
import RustApi.Lib.Text

/-!
# Form encoding

The reference for `application/x-www-form-urlencoded` text.  Decoding has three phases: every `+` byte
becomes a space, every `%` followed by two hexadecimal digits becomes the byte they write, and the
bytes are read as UTF-8.  A `%` that is not followed by two digits stands for itself.

Encoding is a relation, since an encoder has choices: `Encoded raw s t` holds of every `t` in which
each character of `s` is left as it is (where `raw` allows it), written as one escape for each of its
UTF-8 bytes, or, if it is a space, written `+`.  `formDecode_encoded` is the round trip, and
`EncodedPair.splitOnce_eq` finds the two halves of a pair again.

`formMap` keeps one text for each key: the values of the key, in order, joined with `,`.
-/

namespace FormEncoding

open RustStd

/-! ### Decoding -/

/-- The value of a hexadecimal digit, in either case. -/
def hexValue (b : UInt8) : Option ℕ :=
  if 48 ≤ b.toNat ∧ b.toNat ≤ 57 then some (b.toNat - 48)
  else if 97 ≤ b.toNat ∧ b.toNat ≤ 102 then some (b.toNat - 97 + 10)
  else if 65 ≤ b.toNat ∧ b.toNat ≤ 70 then some (b.toNat - 65 + 10)
  else none

/-- The byte `%`. -/
abbrev percent : UInt8 := 37

/-- The byte `+`. -/
abbrev plus : UInt8 := 43

/-- The byte of a space. -/
abbrev space : UInt8 := 32

def spaceForPlus (b : UInt8) : UInt8 := if b = plus then space else b

def plusToSpace (bs : Bytes) : Bytes := bs.map spaceForPlus

/-- Replace every escape by the byte it writes. -/
def percentDecode : Bytes → Bytes
  | [] => []
  | b :: h :: l :: bs =>
      if b = percent then
        match hexValue h, hexValue l with
        | some x, some y => UInt8.ofNat (16 * x + y) :: percentDecode bs
        | _, _ => b :: percentDecode (h :: l :: bs)
      else b :: percentDecode (h :: l :: bs)
  | b :: bs => b :: percentDecode bs

/-- The text a piece of a form stands for. -/
def formDecode (s : Str) : Str := fromUtf8Lossy (percentDecode (plusToSpace (utf8 s)))

@[simp] theorem plusToSpace_nil : plusToSpace [] = [] := rfl

@[simp] theorem plusToSpace_cons (b : UInt8) (bs : Bytes) :
    plusToSpace (b :: bs) = spaceForPlus b :: plusToSpace bs := rfl

@[simp] theorem plusToSpace_append (bs cs : Bytes) :
    plusToSpace (bs ++ cs) = plusToSpace bs ++ plusToSpace cs := List.map_append

/-- Without `+` there is nothing to replace. -/
theorem plusToSpace_of_notMem {bs : Bytes} (h : plus ∉ bs) : plusToSpace bs = bs := by
  rw [plusToSpace, List.map_congr_left (g := id), List.map_id]
  intro b hb
  rw [spaceForPlus, if_neg (fun hp : b = plus => h (hp ▸ hb)), id_eq]

/-- Neither `+` nor a space is a digit, so the first phase hides no escape. -/
theorem hexValue_spaceForPlus (b : UInt8) : hexValue (spaceForPlus b) = hexValue b := by
  unfold spaceForPlus
  split
  · next h =>
    rw [h]
    rfl
  · rfl

/-- A byte other than `%` is copied. -/
theorem percentDecode_cons_of_ne {b : UInt8} (h : b ≠ percent) (bs : Bytes) :
    percentDecode (b :: bs) = b :: percentDecode bs := by
  cases bs with
  | nil => rfl
  | cons c cs =>
      cases cs with
      | nil => rfl
      | cons d ds => rw [percentDecode, if_neg h]

/-- An escape is replaced. -/
theorem percentDecode_escape {h l : UInt8} {x y : ℕ} (hx : hexValue h = some x)
    (hy : hexValue l = some y) (bs : Bytes) :
    percentDecode (percent :: h :: l :: bs) = UInt8.ofNat (16 * x + y) :: percentDecode bs := by
  rw [percentDecode, if_pos rfl, hx, hy]

/-- The bytes do not start with two digits. -/
def NoDigits (bs : Bytes) : Prop :=
  ∀ a b rest, bs = a :: b :: rest → hexValue a = none ∨ hexValue b = none

theorem noDigits_or_digits (bs : Bytes) :
    NoDigits bs ∨ ∃ a b x y rest,
      bs = a :: b :: rest ∧ hexValue a = some x ∧ hexValue b = some y := by
  by_cases h : NoDigits bs
  · exact .inl h
  · right
    simp only [NoDigits, not_forall, not_or, ← ne_eq, Option.ne_none_iff_exists'] at h
    obtain ⟨a, b, rest, hbs, ⟨x, hx⟩, y, hy⟩ := h
    exact ⟨a, b, x, y, rest, hbs, hx, hy⟩

/-- A `%` that is not followed by two digits is copied. -/
theorem percentDecode_of_noDigits {bs : Bytes} (h : NoDigits bs) :
    percentDecode (percent :: bs) = percent :: percentDecode bs := by
  cases bs with
  | nil => rfl
  | cons a bs =>
      cases bs with
      | nil => rfl
      | cons b bs =>
          rw [percentDecode, if_pos rfl]
          rcases h a b bs rfl with ha | hb
          · rw [ha]
          · rw [hb]
            cases hexValue a <;> rfl

theorem NoDigits.plusToSpace {bs : Bytes} (h : NoDigits bs) : NoDigits (plusToSpace bs) := by
  intro a b rest heq
  match bs, heq with
  | c :: d :: bs, heq =>
      rw [plusToSpace_cons, plusToSpace_cons, List.cons.injEq, List.cons.injEq] at heq
      rw [← heq.1, ← heq.2.1, hexValue_spaceForPlus, hexValue_spaceForPlus]
      exact h c d bs rfl

/-- That is so whatever became of the `+` after it. -/
theorem percentDecode_percent {bs : Bytes} (h : NoDigits bs) :
    percentDecode (percent :: plusToSpace bs) = percent :: percentDecode (plusToSpace bs) :=
  percentDecode_of_noDigits h.plusToSpace

/-- Decoding escapes as a relation: an escape becomes its byte, and a byte that begins none is copied,
decoding then going on at the next byte. -/
inductive PercentDecodes : Bytes → Bytes → Prop
  | nil : PercentDecodes [] []
  | escape {h l : UInt8} {x y : ℕ} {bs out : Bytes} :
      hexValue h = some x → hexValue l = some y → PercentDecodes bs out →
      PercentDecodes (percent :: h :: l :: bs) (UInt8.ofNat (16 * x + y) :: out)
  | copy {b : UInt8} {bs out : Bytes} :
      (b = percent → NoDigits bs) → PercentDecodes bs out → PercentDecodes (b :: bs) (b :: out)

theorem percentDecodes_percentDecode (bs : Bytes) : PercentDecodes bs (percentDecode bs) := by
  induction hn : bs.length using Nat.strong_induction_on generalizing bs with
  | h n ih =>
    cases bs with
    | nil => exact .nil
    | cons b bs =>
      have hcopy : PercentDecodes bs (percentDecode bs) :=
        ih bs.length (hn ▸ Nat.lt_succ_self _) bs rfl
      by_cases hb : b = percent
      · subst hb
        rcases noDigits_or_digits bs with hno | ⟨h, l, x, y, rest, rfl, hx, hy⟩
        · rw [percentDecode_of_noDigits hno]
          exact .copy (fun _ => hno) hcopy
        · have hlt : rest.length < n := by
            rw [← hn]
            simp only [List.length_cons]
            omega
          rw [percentDecode_escape hx hy]
          exact .escape hx hy (ih rest.length hlt rest rfl)
      · rw [percentDecode_cons_of_ne hb]
        exact .copy (fun h => absurd h hb) hcopy

/-- **The relation is the graph of `percentDecode`.** -/
theorem percentDecodes_iff (bs out : Bytes) : PercentDecodes bs out ↔ out = percentDecode bs := by
  constructor
  · intro h
    induction h with
    | nil => rfl
    | escape hx hy _ ih => rw [percentDecode_escape hx hy, ih]
    | @copy b bs out hno _ ih =>
        by_cases hb : b = percent
        · subst hb
          rw [percentDecode_of_noDigits (hno rfl), ih]
        · rw [percentDecode_cons_of_ne hb, ih]
  · intro h
    rw [h]
    exact percentDecodes_percentDecode bs

theorem percentDecode_append_of_notMem {bs : Bytes} (h : percent ∉ bs) (cs : Bytes) :
    percentDecode (bs ++ cs) = bs ++ percentDecode cs := by
  induction bs with
  | nil => rfl
  | cons b bs ih =>
      rw [List.mem_cons, not_or] at h
      rw [List.cons_append, percentDecode_cons_of_ne (Ne.symm h.1), ih h.2, List.cons_append]

/-! ### Encoding -/

/-- The value of a hexadecimal digit as a character. -/
def digitValue (c : Char) : Option ℕ := if c.toNat < 128 then hexValue (UInt8.ofNat c.toNat) else none

/-- One escape: `%` and the two digits of a byte. -/
inductive EscapedByte (b : UInt8) : Str → Prop
  | mk {h l : Char} : digitValue h = some (b.toNat / 16) → digitValue l = some (b.toNat % 16) →
      EscapedByte b ['%', h, l]

/-- One escape after the other. -/
inductive EscapedBytes : Bytes → Str → Prop
  | nil : EscapedBytes [] []
  | cons {b : UInt8} {bs : Bytes} {s t : Str} :
      EscapedByte b s → EscapedBytes bs t → EscapedBytes (b :: bs) (s ++ t)

/-- The ways to write one character. -/
inductive EncodedChar (raw : Char → Prop) : Char → Str → Prop
  | asIs {c : Char} : raw c → EncodedChar raw c [c]
  | escaped {c : Char} {s : Str} : EscapedBytes (utf8 [c]) s → EncodedChar raw c s
  | spaceAsPlus : EncodedChar raw ' ' ['+']

/-- The ways to write a text. -/
inductive Encoded (raw : Char → Prop) : Str → Str → Prop
  | nil : Encoded raw [] []
  | cons {c : Char} {cs s t : Str} :
      EncodedChar raw c s → Encoded raw cs t → Encoded raw (c :: cs) (s ++ t)

/-- The characters a value may hold as they are. -/
def RawInValue (c : Char) : Prop := c ≠ '%' ∧ c ≠ '+' ∧ c ≠ '&'

/-- The characters a key may hold as they are. -/
def RawInKey (c : Char) : Prop := RawInValue c ∧ c ≠ '='

/-- A pair is written `key=value`. -/
inductive EncodedPair : Str × Str → Str → Prop
  | mk {k v s t : Str} :
      Encoded RawInKey k s → Encoded RawInValue v t → EncodedPair (k, v) (s ++ '=' :: t)

/-- A list of pairs is written with `&` between them. -/
def EncodedQuery (kvs : List (Str × Str)) (qs : Str) : Prop :=
  ∃ pieces, List.Forall₂ EncodedPair kvs pieces ∧ qs = ['&'].intercalate pieces

/-! ### An encoder -/

/-- The digit of a number below sixteen, in upper case. -/
def upperDigit (n : ℕ) : Char := if n < 10 then Char.ofNat (48 + n) else Char.ofNat (55 + n)

theorem digitValue_upperDigit : ∀ n < 16, digitValue (upperDigit n) = some n := by decide

def escapeByte (b : UInt8) : Str := ['%', upperDigit (b.toNat / 16), upperDigit (b.toNat % 16)]

/-- Letters and digits stay, a space becomes `+`, everything else is escaped. -/
def encodeChar (c : Char) : Str :=
  if c = ' ' then ['+'] else if c.isAlphanum then [c] else (utf8 [c]).flatMap escapeByte

def formEncode (s : Str) : Str := s.flatMap encodeChar

def encodeQuery (kvs : List (Str × Str)) : Str :=
  ['&'].intercalate (kvs.map fun kv => formEncode kv.1 ++ '=' :: formEncode kv.2)

theorem escapedBytes_escapeByte (bs : Bytes) : EscapedBytes bs (bs.flatMap escapeByte) := by
  induction bs with
  | nil => exact .nil
  | cons b bs ih =>
      have hb := b.toNat_lt
      exact .cons (.mk (digitValue_upperDigit _ (by omega)) (digitValue_upperDigit _ (by omega))) ih

theorem encoded_formEncode {raw : Char → Prop} (hraw : ∀ c : Char, c.isAlphanum → raw c) (s : Str) :
    Encoded raw s (formEncode s) := by
  induction s with
  | nil => exact .nil
  | cons c s ih =>
      refine .cons ?_ ih
      unfold encodeChar
      split
      · next h =>
        rw [h]
        exact .spaceAsPlus
      · split
        · next h => exact .asIs (hraw c h)
        · exact .escaped (escapedBytes_escapeByte _)

/-- Letters and digits are no separators. -/
theorem rawInKey_of_isAlphanum {c : Char} (h : c.isAlphanum) : RawInKey c := by
  refine ⟨⟨?_, ?_, ?_⟩, ?_⟩
  all_goals
    intro hc
    rw [hc] at h
    exact absurd h (by decide)

/-- **Every list of pairs has an encoding.** -/
theorem encodedQuery_encodeQuery (kvs : List (Str × Str)) : EncodedQuery kvs (encodeQuery kvs) := by
  refine ⟨_, ?_, rfl⟩
  induction kvs with
  | nil => exact .nil
  | cons kv kvs ih =>
      refine .cons ?_ ih
      exact .mk (encoded_formEncode (fun c => rawInKey_of_isAlphanum) kv.1)
        (encoded_formEncode (fun c hc => (rawInKey_of_isAlphanum hc).1) kv.2)

/-! ### Decoding undoes encoding -/

theorem hexValue_range {b : UInt8} {x : ℕ} (h : hexValue b = some x) :
    48 ≤ b.toNat ∧ b.toNat ≤ 102 ∧ b.toNat ≠ 61 ∧ x < 16 := by
  unfold hexValue at h
  split at h
  · rw [← Option.some.inj h]
    omega
  · split at h
    · rw [← Option.some.inj h]
      omega
    · split at h
      · rw [← Option.some.inj h]
        omega
      · cases h

theorem digitValue_eq_some {c : Char} {x : ℕ} (h : digitValue c = some x) :
    c.toNat < 128 ∧ hexValue (UInt8.ofNat c.toNat) = some x := by
  unfold digitValue at h
  split at h
  · next hc => exact ⟨hc, h⟩
  · cases h

/-- The bytes of an escape. -/
theorem EscapedByte.utf8_eq {b : UInt8} {s : Str} (h : EscapedByte b s) :
    ∃ h l, utf8 s = [percent, h, l] ∧ hexValue h = some (b.toNat / 16) ∧
      hexValue l = some (b.toNat % 16) := by
  cases h with
  | @mk h l hh hl =>
      obtain ⟨hascii, hh⟩ := digitValue_eq_some hh
      obtain ⟨lascii, hl⟩ := digitValue_eq_some hl
      refine ⟨_, _, ?_, hh, hl⟩
      rw [utf8_cons, utf8_cons, utf8_cons, utf8EncodeChar_ascii hascii, utf8EncodeChar_ascii lascii]
      rfl

theorem EscapedByte.percentDecode_eq {b : UInt8} {s : Str} (h : EscapedByte b s) (rest : Bytes) :
    percentDecode (plusToSpace (utf8 s ++ rest)) = b :: percentDecode (plusToSpace rest) := by
  obtain ⟨h, l, hs, hh, hl⟩ := h.utf8_eq
  have hplus : plus ∉ [percent, h, l] := by
    have hrange := hexValue_range hh
    have lrange := hexValue_range hl
    intro hmem
    simp only [List.mem_cons, List.not_mem_nil, or_false] at hmem
    rcases hmem with hp | hp | hp
    · cases hp
    · rw [← hp] at hrange
      exact absurd hrange.1 (by decide)
    · rw [← hp] at lrange
      exact absurd lrange.1 (by decide)
  have hbyte : UInt8.ofNat (16 * (b.toNat / 16) + b.toNat % 16) = b := by
    rw [Nat.div_add_mod, UInt8.ofNat_toNat]
  rw [hs, plusToSpace_append, plusToSpace_of_notMem hplus]
  show percentDecode (percent :: h :: l :: plusToSpace rest) = _
  rw [percentDecode_escape hh hl, hbyte]

theorem EscapedBytes.percentDecode_eq {bs : Bytes} {s : Str} (h : EscapedBytes bs s)
    (rest : Bytes) :
    percentDecode (plusToSpace (utf8 s ++ rest)) = bs ++ percentDecode (plusToSpace rest) := by
  induction h with
  | nil => rfl
  | cons hb _ ih =>
      rw [utf8_append, List.append_assoc, hb.percentDecode_eq, ih, List.cons_append]

/-- One character of the text is read back, whatever follows. -/
theorem EncodedChar.percentDecode_eq {raw : Char → Prop} (hraw : ∀ c, raw c → c ≠ '%' ∧ c ≠ '+')
    {c : Char} {s : Str} (h : EncodedChar raw c s) (rest : Bytes) :
    percentDecode (plusToSpace (utf8 s ++ rest)) = utf8 [c] ++ percentDecode (plusToSpace rest) := by
  cases h with
  | asIs hc =>
      have hpercent : percent ∉ utf8 [c] := by
        rw [show percent = UInt8.ofNat '%'.toNat from rfl, ofNat_mem_utf8 (by decide)]
        simpa using (hraw c hc).1.symm
      have hplus : plus ∉ utf8 [c] := by
        rw [show plus = UInt8.ofNat '+'.toNat from rfl, ofNat_mem_utf8 (by decide)]
        simpa using (hraw c hc).2.symm
      rw [plusToSpace_append, plusToSpace_of_notMem hplus, percentDecode_append_of_notMem hpercent]
  | escaped hbytes => exact hbytes.percentDecode_eq rest
  | spaceAsPlus =>
      show percentDecode (space :: plusToSpace rest) = [space] ++ percentDecode (plusToSpace rest)
      rw [percentDecode_cons_of_ne (by decide)]
      rfl

theorem Encoded.percentDecode_eq {raw : Char → Prop} (hraw : ∀ c, raw c → c ≠ '%' ∧ c ≠ '+')
    {s t : Str} (h : Encoded raw s t) : percentDecode (plusToSpace (utf8 t)) = utf8 s := by
  induction h with
  | nil => rfl
  | @cons c cs s t hc _ ih =>
      rw [utf8_append, hc.percentDecode_eq hraw, ih, ← utf8_append]
      rfl

/-- **Decoding undoes every encoding.** -/
theorem formDecode_encoded {raw : Char → Prop} (hraw : ∀ c, raw c → c ≠ '%' ∧ c ≠ '+') {s t : Str}
    (h : Encoded raw s t) : formDecode t = s := by
  rw [formDecode, h.percentDecode_eq hraw, fromUtf8Lossy_utf8]

/-! ### Separators stay separators -/

/-- A character that no encoding contains. -/
def Separator (raw : Char → Prop) (d : Char) : Prop :=
  ¬ raw d ∧ d ≠ '%' ∧ d ≠ '+' ∧ digitValue d = none

theorem EscapedBytes.notMem {bs : Bytes} {s : Str} (h : EscapedBytes bs s) {d : Char}
    (hpercent : d ≠ '%') (hdigit : digitValue d = none) : d ∉ s := by
  induction h with
  | nil => exact List.not_mem_nil
  | @cons b bs s t hb _ ih =>
      cases hb with
      | mk hh hl =>
          intro hmem
          rcases List.mem_append.mp hmem with hmem | hmem
          · simp only [List.mem_cons, List.not_mem_nil, or_false] at hmem
            rcases hmem with heq | heq | heq
            · exact hpercent heq
            · rw [← heq, hdigit] at hh
              cases hh
            · rw [← heq, hdigit] at hl
              cases hl
          · exact ih hmem

theorem EncodedChar.notMem {raw : Char → Prop} {c d : Char} {s : Str} (h : EncodedChar raw c s)
    (hd : Separator raw d) : d ∉ s := by
  obtain ⟨hraw, hpercent, hplus, hdigit⟩ := hd
  cases h with
  | asIs hc =>
      intro hmem
      rw [List.mem_singleton.mp hmem] at hraw
      exact hraw hc
  | escaped hbytes => exact hbytes.notMem hpercent hdigit
  | spaceAsPlus => exact fun hmem => hplus (List.mem_singleton.mp hmem)

theorem Encoded.notMem {raw : Char → Prop} {d : Char} {s t : Str} (h : Encoded raw s t)
    (hd : Separator raw d) : d ∉ t := by
  induction h with
  | nil => exact List.not_mem_nil
  | cons hc _ ih =>
      intro hmem
      rcases List.mem_append.mp hmem with hmem | hmem
      · exact hc.notMem hd hmem
      · exact ih hmem

theorem separator_value_amp : Separator RawInValue '&' :=
  ⟨fun h => h.2.2 rfl, by decide, by decide, rfl⟩

theorem separator_key_amp : Separator RawInKey '&' :=
  ⟨fun h => h.1.2.2 rfl, by decide, by decide, rfl⟩

theorem separator_key_eq : Separator RawInKey '=' :=
  ⟨fun h => h.2 rfl, by decide, by decide, rfl⟩

/-- A piece holds no `&`, so the pieces of a query are found again. -/
theorem EncodedPair.amp_notMem {kv : Str × Str} {piece : Str} (h : EncodedPair kv piece) :
    '&' ∉ piece := by
  cases h with
  | mk hk hv =>
      intro hmem
      rcases List.mem_append.mp hmem with hmem | hmem
      · exact hk.notMem separator_key_amp hmem
      · rcases List.mem_cons.mp hmem with heq | hmem
        · cases heq
        · exact hv.notMem separator_value_amp hmem

/-- A piece splits into its encoded key and value, which decode. -/
theorem EncodedPair.splitOnce_eq {kv : Str × Str} {piece : Str} (h : EncodedPair kv piece) :
    ∃ s t, splitOnce '=' piece = some (s, t) ∧ formDecode s = kv.1 ∧ formDecode t = kv.2 := by
  cases h with
  | @mk k v s t hk hv =>
      exact ⟨s, t, splitOnce_append (hk.notMem separator_key_eq) t,
        formDecode_encoded (fun c hc => ⟨hc.1.1, hc.1.2.1⟩) hk,
        formDecode_encoded (fun c hc => ⟨hc.1, hc.2.1⟩) hv⟩

theorem EncodedPair.ne_nil {kv : Str × Str} {piece : Str} (h : EncodedPair kv piece) :
    piece ≠ [] := by
  cases h with
  | mk hk hv => simp

/-! ### One text for each key -/

/-- The values of a key, in order. -/
def valuesFor (kvs : List (Str × Str)) (k : Str) : List Str :=
  (kvs.filter fun kv => kv.1 = k).map Prod.snd

/-- A key that is there already gets `,` and the new value appended. -/
def formInsert (m : HashMap Str Str) (kv : Str × Str) : HashMap Str Str :=
  m.upsert kv.1 (fun old => old ++ [','] ++ kv.2) kv.2

/-- Insert the pairs one after another. -/
def formMap (kvs : List (Str × Str)) : HashMap Str Str := kvs.foldl formInsert HashMap.empty

theorem formMap_snoc (kvs : List (Str × Str)) (kv : Str × Str) :
    formMap (kvs ++ [kv]) = formInsert (formMap kvs) kv := by
  simp only [formMap, List.foldl_append, List.foldl_cons, List.foldl_nil]

theorem valuesFor_append (kvs kvs' : List (Str × Str)) (k : Str) :
    valuesFor (kvs ++ kvs') k = valuesFor kvs k ++ valuesFor kvs' k := by
  rw [valuesFor, List.filter_append, List.map_append, valuesFor, valuesFor]

theorem valuesFor_snoc (kvs : List (Str × Str)) (kv : Str × Str) (k : Str) :
    valuesFor (kvs ++ [kv]) k = valuesFor kvs k ++ if kv.1 = k then [kv.2] else [] := by
  rw [valuesFor_append]
  congr 1
  split
  · next h => simp [valuesFor, h]
  · next h => simp [valuesFor, h]

/-- Two joined lists, joined. -/
theorem intercalate_append {α : Type*} {sep : List α} {xs ys : List (List α)} (hx : xs ≠ [])
    (hy : ys ≠ []) :
    sep.intercalate (xs ++ ys) = sep.intercalate xs ++ (sep ++ sep.intercalate ys) := by
  induction xs with
  | nil => exact absurd rfl hx
  | cons z zs ih =>
      by_cases hz : zs = []
      · rw [hz, List.singleton_append, List.intercalate_cons_of_ne_nil hy,
          List.intercalate_singleton, List.append_assoc]
      · have hne : zs ++ ys ≠ [] := fun h => hz (List.append_eq_nil_iff.mp h).1
        rw [List.cons_append, List.intercalate_cons_of_ne_nil hne,
          List.intercalate_cons_of_ne_nil hz, ih hz]
        simp only [List.append_assoc]

/-- The last of several values is all of them joined only when there is no other. -/
theorem intercalate_eq_getLast_iff {α : Type*} {sep : List α} (hsep : sep ≠ []) {xs : List (List α)}
    (hx : xs ≠ []) : xs.getLast? = some (sep.intercalate xs) ↔ xs.length = 1 := by
  induction xs using List.reverseRecOn with
  | nil => exact absurd rfl hx
  | append_singleton xs x _ =>
      rw [List.getLast?_append_cons, List.getLast?_singleton, Option.some.injEq, List.length_append,
        List.length_singleton]
      by_cases h : xs = []
      · rw [h, List.nil_append, List.intercalate_singleton]
        exact iff_of_true rfl rfl
      · have hlen := List.length_pos_iff.mpr h
        have hsepLen := List.length_pos_iff.mpr hsep
        refine iff_of_false ?_ (by omega)
        intro heq
        rw [intercalate_append h (List.cons_ne_nil x []), List.intercalate_singleton] at heq
        have hlonger := congrArg List.length heq
        simp only [List.length_append] at hlonger
        omega

/-- **The value under a key is its values in order, joined with `,`.** -/
theorem get_formMap (kvs : List (Str × Str)) (k : Str) :
    (formMap kvs).get k =
      if valuesFor kvs k = [] then none else some ([','].intercalate (valuesFor kvs k)) := by
  induction kvs using List.reverseRecOn with
  | nil => rfl
  | append_singleton kvs kv ih =>
      rw [formMap_snoc, formInsert, HashMap.get_upsert, valuesFor_snoc]
      by_cases hk : kv.1 = k
      · subst hk
        have hne : valuesFor kvs kv.1 ++ [kv.2] ≠ [] := by simp
        rw [if_pos rfl, if_pos rfl, if_neg hne, ih]
        by_cases hnil : valuesFor kvs kv.1 = []
        · rw [if_pos hnil, hnil, List.nil_append, List.intercalate_singleton]
          rfl
        · rw [if_neg hnil, intercalate_append hnil (List.cons_ne_nil _ _),
            List.intercalate_singleton, Option.map_some, Option.getD_some, List.append_assoc]
      · rw [if_neg (Ne.symm hk), if_neg hk, List.append_nil, ih]

theorem valuesFor_eq_nil_iff (kvs : List (Str × Str)) (k : Str) :
    valuesFor kvs k = [] ↔ k ∉ kvs.map Prod.fst := by
  rw [valuesFor, List.map_eq_nil_iff, List.filter_eq_nil_iff]
  simp only [decide_eq_true_eq, List.mem_map, not_exists, not_and]

theorem mem_keys_formMap (kvs : List (Str × Str)) (k : Str) :
    k ∈ (formMap kvs).keys ↔ k ∈ kvs.map Prod.fst := by
  rw [HashMap.mem_keys, get_formMap]
  by_cases h : valuesFor kvs k = []
  · rw [if_pos h]
    exact iff_of_false (by simp) ((valuesFor_eq_nil_iff kvs k).mp h)
  · rw [if_neg h]
    refine iff_of_true ⟨_, rfl⟩ ?_
    by_contra hk
    exact h ((valuesFor_eq_nil_iff kvs k).mpr hk)

/-- What two sides hold under a key, put together: the left value first, a `,` between the two. -/
def mergeValues : Option Str → Option Str → Option Str
  | none, w => w
  | some v, none => some v
  | some v, some w => some (v ++ [','] ++ w)

/-- **The map of two lists, one after the other, merges their maps.** -/
theorem get_formMap_append (kvs kvs' : List (Str × Str)) (k : Str) :
    (formMap (kvs ++ kvs')).get k = mergeValues ((formMap kvs).get k) ((formMap kvs').get k) := by
  rw [get_formMap, get_formMap, get_formMap, valuesFor_append]
  by_cases h : valuesFor kvs k = []
  · rw [h, List.nil_append, if_pos rfl, mergeValues]
  · have hne : valuesFor kvs k ++ valuesFor kvs' k ≠ [] :=
      fun hnil => h (List.append_eq_nil_iff.mp hnil).1
    rw [if_neg hne, if_neg h]
    by_cases h' : valuesFor kvs' k = []
    · rw [h', if_pos rfl, List.append_nil, mergeValues]
    · rw [if_neg h', mergeValues, intercalate_append h h', List.append_assoc]

end FormEncoding
