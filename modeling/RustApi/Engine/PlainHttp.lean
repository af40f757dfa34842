import RustApi.Engine.Http

/-!
# A reference implementation of the `http` crate

Header names are byte strings in lower case, values byte strings, and a header map is the list of its
entries.  A map of 24576 names is full, and then takes no header at all, not even one under a name it has:
so the number of names with which nothing can go wrong is one less.  `plainHttp_documented` and
`plainHttp_namesDocumented` show that it does what is documented, so that the two structures ask for
nothing impossible.
-/

namespace RustApi

open RustStd

/-- The characters of a header name or a method: letters, digits and fifteen signs. -/
def tokenByte (b : UInt8) : Bool :=
  (48 ≤ b.toNat && b.toNat ≤ 57) || (65 ≤ b.toNat && b.toNat ≤ 90)
    || (97 ≤ b.toNat && b.toNat ≤ 122) || b ∈ utf8 "!#$%&'*+-.^_|~".toList || b.toNat = 96

/-- `HeaderName::from_bytes` on bytes: a non-empty token, in lower case. -/
def plainName (bs : Bytes) : Option Bytes :=
  if bs ≠ [] ∧ bs.all tokenByte then some (bs.map toLowerByte) else none

theorem plainName_server : (plainName (utf8 "server".toList)).isSome := by decide +kernel

theorem plainName_contentType :
    plainName (utf8 "content-type".toList) = some (utf8 "content-type".toList) := by
  decide +kernel

/-- `HeaderValue::from_str` on bytes. -/
def plainValue (s : Str) : Option Bytes := if ValidHeaderValue s then some (utf8 s) else none

/-- What one `header` call adds. -/
def plainEntry : HeaderCall Bytes Bytes → Option (Bytes × Bytes) :=
  HeaderCall.entry plainName plainValue

/-- The names of a list of entries. -/
def plainNames (es : List (Bytes × Bytes)) : Finset Bytes := (es.map Prod.fst).toFinset

/-- How many names a map has room for. -/
def plainRoom : ℕ := 24576

/-- `HeaderMap::insert`: room for one more is made first, whatever the name; then the entries under the
name go and one is added at the end. -/
def plainInsert (m : List (Bytes × Bytes)) (n v : Bytes) : Option (List (Bytes × Bytes)) :=
  if (plainNames m).card < plainRoom then some (m.filter (fun e => e.1 ≠ n) ++ [(n, v)]) else none

theorem plainInsert_isSome {m : List (Bytes × Bytes)} {n : Bytes} (v : Bytes)
    (h : (insert n (plainNames m)).card < plainRoom) : (plainInsert m n v).isSome := by
  have hroom : (plainNames m).card < plainRoom :=
    (Finset.card_le_card (Finset.subset_insert n (plainNames m))).trans_lt h
  rw [plainInsert, if_pos hroom]
  rfl

/-- The builder chain: every call must convert, and there must be room before the last one is added. -/
def plainFinish (s : StatusCode) (calls : List (HeaderCall Bytes Bytes)) (body : Bytes) :
    Option (HttpResponse (List (Bytes × Bytes))) :=
  match collectSome (calls.map plainEntry) with
  | some es => if (plainNames es.dropLast).card < plainRoom then some ⟨s, es, body⟩ else none
  | none => none

theorem plainNames_dropLast_card_le (es : List (Bytes × Bytes)) :
    (plainNames es.dropLast).card ≤ (plainNames es).card := by
  apply Finset.card_le_card
  intro n hn
  rw [plainNames, List.mem_toFinset, List.mem_map] at hn ⊢
  obtain ⟨e, he, rfl⟩ := hn
  exact ⟨e, List.mem_of_mem_dropLast he, rfl⟩

theorem plainFinish_eq_some {s : StatusCode} {calls : List (HeaderCall Bytes Bytes)} {body : Bytes}
    {r : HttpResponse (List (Bytes × Bytes))} : plainFinish s calls body = some r ↔
      ∃ es, calls.map plainEntry = es.map some ∧ (plainNames es.dropLast).card < plainRoom ∧
        r = ⟨s, es, body⟩ := by
  simp only [← collectSome_eq_some]
  unfold plainFinish
  cases collectSome (calls.map plainEntry) with
  | none => simp
  | some es =>
      simp only [Option.some.injEq, exists_eq_left']
      split
      · next h => simp [h, eq_comm]
      · next h => simp [h]

/-- Header names as lower-case bytes, values as bytes, a header map as the list of its entries. -/
def plainHttp : HttpCrate where
  HeaderName := Bytes
  nameDecEq := inferInstance
  HeaderValue := Bytes
  HeaderMap := List (Bytes × Bytes)
  methodFromBytes bs :=
    if bs ≠ [] ∧ bs.all tokenByte then .ok ⟨fromUtf8Lossy bs⟩
    else .error "invalid HTTP method".toList
  statusFromU16 n := if h : 100 ≤ n.toNat ∧ n.toNat ≤ 999 then some ⟨n, h⟩ else none
  nameFromBytes := plainName
  nameAsStr n := n.map fun b => Char.ofNat b.toNat
  contentType := utf8 "content-type".toList
  valueFromStr := plainValue
  valueToStr v :=
    if v.all fun b => b.toNat = 9 || (32 ≤ b.toNat && b.toNat < 127) then some (fromUtf8Lossy v)
    else none
  valueAsBytes v := v
  maxNames := 24575
  mapNew := []
  mapInsert := plainInsert
  mapIter m := m
  finish := plainFinish

theorem plainHttp_nameFromBytes (bs : Bytes) : plainHttp.nameFromBytes bs = plainName bs := rfl

/-- Taking a name's entries out and adding one at the end replaces that name's values. -/
theorem valuesIn_replace (X : HttpCrate) (m : List (X.HeaderName × X.HeaderValue))
    (n n' : X.HeaderName) (v : X.HeaderValue) :
    X.valuesIn (m.filter (fun e => e.1 ≠ n) ++ [(n, v)]) n' =
      if n' = n then [v] else X.valuesIn m n' := by
  unfold HttpCrate.valuesIn
  rw [List.filter_append, List.filter_filter, List.map_append]
  by_cases h : n' = n
  · subst h
    have hnone : m.filter (fun e => decide (e.1 = n') && decide (e.1 ≠ n')) = [] := by
      rw [List.filter_eq_nil_iff]
      intro e _
      simp
    rw [hnone, if_pos rfl]
    simp
  · have hkeep : m.filter (fun e => decide (e.1 = n') && decide (e.1 ≠ n)) =
        m.filter fun e => e.1 = n' := by
      apply List.filter_congr
      intro e _
      by_cases he : e.1 = n'
      · simp [he, h]
      · simp [he]
    rw [hkeep, if_neg h, List.filter_cons_of_neg (by simpa using fun hn => h hn.symm)]
    simp

theorem plainHttp_documented : plainHttp.Documented where
  statusFromU16_eq _ := rfl
  server_isSome := by
    rw [plainHttp_nameFromBytes]
    exact plainName_server
  contentType_eq := by
    rw [plainHttp_nameFromBytes]
    exact plainName_contentType
  valueFromStr_isSome s := by
    show (plainValue s).isSome ↔ _
    unfold plainValue
    split <;> simp [*]
  valueFromStr_bytes s v h := by
    change plainValue s = some v at h
    unfold plainValue at h
    split at h
    · exact (Option.some.inj h).symm
    · simp at h
  two_le_maxNames := by decide
  iter_new := rfl
  insert_isSome _ _ v h := plainInsert_isSome v (Nat.lt_succ_of_le h)
  insert_valuesOf m n v m' h n' := by
    change plainInsert m n v = some m' at h
    unfold plainInsert at h
    split at h
    · rw [← Option.some.inj h]
      exact valuesIn_replace plainHttp m n n' v
    · simp at h
  finish_converts s calls body r h := by
    obtain ⟨es, hes, -, -⟩ := plainFinish_eq_some.mp h
    exact ⟨es, hes⟩
  finish_isSome s calls body entries hentries hcard :=
    Option.isSome_iff_exists.mpr ⟨_, plainFinish_eq_some.mpr ⟨entries, hentries,
      Nat.lt_succ_of_le ((plainNames_dropLast_card_le entries).trans hcard), rfl⟩⟩
  finish_eq s calls body r entries h hentries := by
    obtain ⟨es, hes, -, rfl⟩ := plainFinish_eq_some.mp h
    have hsame : entries.map some = es.map some := hentries.symm.trans hes
    have heq : entries = es := List.map_injective_iff.mpr (Option.some_injective _) hsame
    exact ⟨rfl, rfl, fun n => by rw [heq]; rfl⟩

theorem toLowerByte_toNat (b : UInt8) : (toLowerByte b).toNat =
    if 65 ≤ b.toNat ∧ b.toNat ≤ 90 then b.toNat + 32 else b.toNat := by
  unfold toLowerByte
  by_cases h : 65 ≤ b.toNat ∧ b.toNat ≤ 90
  · rw [if_pos (by simpa using h), if_pos h, UInt8.toNat_add]
    show (b.toNat + 32) % 256 = b.toNat + 32
    omega
  · rw [if_neg (by simpa using h), if_neg h]

theorem toLowerByte_idem (b : UInt8) : toLowerByte (toLowerByte b) = toLowerByte b := by
  apply UInt8.toNat_inj.mp
  rw [toLowerByte_toNat, toLowerByte_toNat]
  split
  · rw [if_neg (by omega)]
  · rfl

/-- A letter is a token character in either case. -/
theorem tokenByte_toLowerByte (b : UInt8) : tokenByte (toLowerByte b) = tokenByte b := by
  by_cases h : 65 ≤ b.toNat ∧ b.toNat ≤ 90
  · have hlower : (toLowerByte b).toNat = b.toNat + 32 := by rw [toLowerByte_toNat, if_pos h]
    have h97 : 97 ≤ b.toNat + 32 := by omega
    have h122 : b.toNat + 32 ≤ 122 := by omega
    simp [tokenByte, hlower, h97, h122, h.1, h.2]
  · rw [toLowerByte, if_neg (by simpa using h)]

theorem tokenByte_lt {b : UInt8} (h : tokenByte b = true) : b.toNat < 128 := by
  have hsigns : ∀ c ∈ utf8 "!#$%&'*+-.^_|~".toList, c.toNat < 128 := by decide +kernel
  simp only [tokenByte, Bool.or_eq_true, Bool.and_eq_true, decide_eq_true_eq] at h
  rcases h with (((h | h) | h) | h) | h
  · omega
  · omega
  · omega
  · exact hsigns b h
  · omega

theorem toNat_charOfByte (b : UInt8) : (Char.ofNat b.toNat).toNat = b.toNat := by
  have hvalid : b.toNat.isValidChar := by
    have hlt := b.toNat_lt
    exact .inl (by omega)
  rw [Char.ofNat, dif_pos hvalid]
  rfl

theorem utf8_ascii {bs : Bytes} (h : ∀ b ∈ bs, b.toNat < 128) :
    utf8 (bs.map fun b => Char.ofNat b.toNat) = bs := by
  induction bs with
  | nil => rfl
  | cons b bs ih =>
      rw [List.forall_mem_cons] at h
      have hascii : (Char.ofNat b.toNat).toNat < 128 := by
        rw [toNat_charOfByte]
        exact h.1
      rw [List.map_cons, utf8_cons, utf8EncodeChar_ascii hascii, ih h.2, toNat_charOfByte,
        UInt8.ofNat_toNat]
      rfl

theorem plainName_map_toLowerByte (bs : Bytes) : plainName (bs.map toLowerByte) = plainName bs := by
  have htoken : (bs.map toLowerByte).all tokenByte = bs.all tokenByte := by
    rw [List.all_map]
    congr 1
    funext b
    exact tokenByte_toLowerByte b
  have hidem : (bs.map toLowerByte).map toLowerByte = bs.map toLowerByte := by
    rw [List.map_map]
    congr 1
    funext b
    exact toLowerByte_idem b
  unfold plainName
  rw [htoken, hidem]
  simp only [ne_eq, List.map_eq_nil_iff]

theorem plainHttp_namesDocumented : plainHttp.NamesDocumented where
  nameAsStr_injective n n' h := by
    have hinj : Function.Injective fun b : UInt8 => Char.ofNat b.toNat := by
      intro b b' hb
      have hnat := congrArg Char.toNat hb
      rw [toNat_charOfByte, toNat_charOfByte] at hnat
      exact UInt8.toNat_inj.mp hnat
    exact List.map_injective_iff.mpr hinj h
  nameFromBytes_lower := plainName_map_toLowerByte
  nameFromBytes_asStr bs n h := by
    change plainName bs = some n at h
    unfold plainName at h
    split at h
    · next hbs =>
      rw [← Option.some.inj h]
      apply utf8_ascii
      intro b hb
      obtain ⟨c, hc, rfl⟩ := List.mem_map.mp hb
      have htoken := List.all_eq_true.mp hbs.2 c hc
      exact tokenByte_lt (tokenByte_toLowerByte c ▸ htoken)
    · cases h

theorem plainHttp_methodsDocumented : plainHttp.MethodsDocumented where
  methodFromBytes_standard := by decide

theorem plainHttp_valuesDocumented : plainHttp.ValuesDocumented := by
  have hread : ∀ (v : Bytes) s, plainHttp.valueToStr v = some s →
      utf8 s = v ∧ ∀ b ∈ v, b.toNat = 9 ∨ 32 ≤ b.toNat ∧ b.toNat < 127 := by
    intro v s h
    change (if v.all fun b => b.toNat = 9 || (32 ≤ b.toNat && b.toNat < 127)
      then some (fromUtf8Lossy v) else none) = some s at h
    split at h
    · next hall =>
      have hbytes : ∀ b ∈ v, b.toNat = 9 ∨ 32 ≤ b.toNat ∧ b.toNat < 127 := by
        simpa using hall
      have hascii : utf8 (v.map fun b => Char.ofNat b.toNat) = v :=
        utf8_ascii fun b hb => by
          have hb := hbytes b hb
          omega
      refine ⟨?_, hbytes⟩
      rw [← Option.some.inj h, ← hascii, fromUtf8Lossy_utf8]
    · cases h
  constructor
  · intro v s h
    exact (hread v s h).1
  · intro v s h b hb
    obtain ⟨hs, hbytes⟩ := hread v s h
    rw [hs] at hb
    have hb := hbytes b hb
    unfold forbiddenByte
    rcases hb with hb | hb
    · simp [hb]
    · simp
      omega

end RustApi
