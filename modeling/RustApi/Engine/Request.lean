import RustApi.Engine.Http
import RustApi.Lib.FormEncoding
import RustApi.Lib.Panic

/-!
# Requests and their query parameters

`urldecode` runs an index over the bytes of its argument, looks two bytes ahead at a `%` and builds
the output by `u8` arithmetic; `parseQuery` splits a query string at `&` and at the first `=` and
merges repeated keys.  Both are translated with every step that could panic visible.

They never do: `urldecodeLoop_eq` carries the output through the loop against the reference decoder
of `FormEncoding`, the remaining bytes being the view the induction is on, and `parseQuery_eq` does
the same for the merge loop.  `parseQuery_encoded` is the round trip from a list of pairs.
-/

namespace RustApi

open RustStd FormEncoding

/-- `std::net::SocketAddr`, by the text it displays. -/
structure SocketAddr where
  display : Str
  deriving DecidableEq, Repr

/-- The request a handler receives. -/
structure Request (X : HttpCrate) where
  method : Str
  path : Str
  queryString : Str
  queryParams : HashMap Str Str
  headers : X.HeaderMap
  pathParams : HashMap Str Str
  body : Bytes
  remoteAddr : Option SocketAddr

/-! ### The percent-decoder -/

def hex (b : UInt8) : Option UInt8 :=
  if 48 ≤ b.toNat ∧ b.toNat ≤ 57 then some (b - 48)
  else if 97 ≤ b.toNat ∧ b.toNat ≤ 102 then some (b - 97 + 10)
  else if 65 ≤ b.toNat ∧ b.toNat ≤ 70 then some (b - 65 + 10)
  else none

/-- The `while` loop of `urldecode`, from index `i` with the output `out` so far. -/
def urldecodeLoop (bytes : Bytes) (i : ℕ) (out : Bytes) : Run Bytes :=
  if i < bytes.length then do
    let b ← index bytes i
    if b = 43 then
      urldecodeLoop bytes (i + 1) (out ++ [32])
    else if b = 37 ∧ i + 2 < bytes.length then
      let b1 ← index bytes (i + 1)
      let b2 ← index bytes (i + 2)
      match hex b1, hex b2 with
      | some h, some l =>
          let hi ← mulU8 h 16
          let x ← addU8 hi l
          urldecodeLoop bytes (i + 3) (out ++ [x])
      | _, _ => urldecodeLoop bytes (i + 1) (out ++ [b])
    else urldecodeLoop bytes (i + 1) (out ++ [b])
  else .ok out
termination_by bytes.length - i

/-- Minimal percent-decoder. -/
def urldecode (s : Str) : Run Str := do
  let out ← urldecodeLoop (utf8 s) 0 []
  pure (fromUtf8Lossy out)

/-! ### The query parser -/

/-- The `for` loop of `parse_query` over the pieces between `&`. -/
def parseQueryLoop : List Str → HashMap Str Str → Run (HashMap Str Str)
  | [], out => .ok out
  | pair :: pairs, out =>
      if pair = [] then parseQueryLoop pairs out
      else do
        let kv := (splitOnce '=' pair).getD (pair, [])
        let k ← urldecode kv.1
        let v ← urldecode kv.2
        parseQueryLoop pairs (out.upsert k (fun existing => existing ++ [','] ++ v) v)

/-- Parse a query string into a flat map. -/
def parseQuery (qs : Str) : Run (HashMap Str Str) :=
  if qs = [] then .ok HashMap.empty else parseQueryLoop (qs.splitOn '&') HashMap.empty

/-! ### The decoder against the reference -/

theorem ofNat_toNat_sub {b : UInt8} {k : ℕ} (h : k ≤ b.toNat) :
    UInt8.ofNat (b.toNat - k) = b - UInt8.ofNat k := by
  rw [UInt8.ofNat_sub h, UInt8.ofNat_toNat]

/-- `hex` reads the digits the reference reads. -/
theorem hex_eq (b : UInt8) : hex b = (hexValue b).map UInt8.ofNat := by
  unfold hex hexValue
  split
  · next h =>
    rw [Option.map_some, ofNat_toNat_sub h.1]
    rfl
  · split
    · next h =>
      rw [Option.map_some, UInt8.ofNat_add, ofNat_toNat_sub h.1]
      rfl
    · split
      · next h =>
        rw [Option.map_some, UInt8.ofNat_add, ofNat_toNat_sub h.1]
        rfl
      · rfl

theorem mulU8_digit {x : ℕ} (hx : x < 16) : mulU8 (UInt8.ofNat x) 16 = .ok (UInt8.ofNat (16 * x)) := by
  have hnat : (UInt8.ofNat x).toNat = x := by
    rw [UInt8.toNat_ofNat']
    omega
  have hlt : (UInt8.ofNat x).toNat * (16 : UInt8).toNat < 256 := by
    rw [hnat]
    show x * 16 < 256
    omega
  rw [mulU8, if_pos hlt, Nat.mul_comm 16 x, UInt8.ofNat_mul]
  rfl

theorem addU8_digit {x y : ℕ} (hy : y < 16) :
    addU8 (UInt8.ofNat (16 * x)) (UInt8.ofNat y) = .ok (UInt8.ofNat (16 * x + y)) := by
  have hlt : (UInt8.ofNat (16 * x)).toNat + (UInt8.ofNat y).toNat < 256 := by
    rw [UInt8.toNat_ofNat', UInt8.toNat_ofNat']
    omega
  rw [addU8, if_pos hlt, UInt8.ofNat_add]

/-! What is left of the bytes is the view of the index: one lemma for each thing a round can do. -/

theorem index_of_drop {bytes rest : Bytes} {i k : ℕ} {b : UInt8} (h : bytes.drop i = rest)
    (hk : rest[k]? = some b) : index bytes (i + k) = .ok b := by
  rw [← h, List.getElem?_drop] at hk
  exact index_eq_ok hk

theorem lt_length_of_drop {bytes rest : Bytes} {i k : ℕ} (h : bytes.drop i = rest)
    (hk : k < rest.length) : i + k < bytes.length := by
  rw [← h, List.length_drop] at hk
  omega

theorem drop_of_drop {bytes rest : Bytes} {i : ℕ} (front : Bytes)
    (h : bytes.drop i = front ++ rest) :
    bytes.drop (i + front.length) = rest := by
  rw [← List.drop_drop, h, List.drop_left]

theorem urldecodeLoop_nil {bytes : Bytes} {i : ℕ} (out : Bytes) (h : bytes.drop i = []) :
    urldecodeLoop bytes i out = .ok out := by
  have hlen : bytes.length ≤ i := List.drop_eq_nil_iff.mp h
  rw [urldecodeLoop, if_neg (by omega)]

theorem urldecodeLoop_plus {bytes rest : Bytes} {i : ℕ} (out : Bytes)
    (h : bytes.drop i = 43 :: rest) :
    urldecodeLoop bytes i out = urldecodeLoop bytes (i + 1) (out ++ [32]) := by
  have hi : i < bytes.length := lt_length_of_drop h (Nat.succ_pos _)
  have h0 : index bytes i = .ok 43 := @index_of_drop bytes _ i 0 _ h rfl
  rw [urldecodeLoop, if_pos hi, h0, Run.ok_bind, if_pos rfl]

/-- Two digits after a `%` are read and put together without overflow. -/
theorem urldecodeLoop_escape {bytes rest : Bytes} {i x y : ℕ} {a c : UInt8} (out : Bytes)
    (h : bytes.drop i = 37 :: a :: c :: rest) (hx : hexValue a = some x) (hy : hexValue c = some y) :
    urldecodeLoop bytes i out = urldecodeLoop bytes (i + 3) (out ++ [UInt8.ofNat (16 * x + y)]) := by
  have hi : i < bytes.length := lt_length_of_drop h (Nat.succ_pos _)
  have hi2 : i + 2 < bytes.length := lt_length_of_drop h (by simp)
  have h0 : index bytes i = .ok 37 := @index_of_drop bytes _ i 0 _ h rfl
  have h1 : index bytes (i + 1) = .ok a := index_of_drop h rfl
  have h2 : index bytes (i + 2) = .ok c := index_of_drop h rfl
  rw [urldecodeLoop, if_pos hi, h0, Run.ok_bind, if_neg (by decide), if_pos ⟨rfl, hi2⟩, h1,
    Run.ok_bind, h2, Run.ok_bind, hex_eq, hex_eq, hx, hy]
  simp only [Option.map_some, mulU8_digit (hexValue_range hx).2.2.2,
    addU8_digit (hexValue_range hy).2.2.2, Run.ok_bind]

/-- Every other byte is copied, a `%` without two digits after it too. -/
theorem urldecodeLoop_copy {bytes rest : Bytes} {i : ℕ} {b : UInt8} (out : Bytes)
    (h : bytes.drop i = b :: rest) (hplus : b ≠ 43) (hpercent : b = 37 → NoDigits rest) :
    urldecodeLoop bytes i out = urldecodeLoop bytes (i + 1) (out ++ [b]) := by
  have hi : i < bytes.length := lt_length_of_drop h (Nat.succ_pos _)
  have h0 : index bytes i = .ok b := @index_of_drop bytes _ i 0 _ h rfl
  rw [urldecodeLoop, if_pos hi, h0, Run.ok_bind, if_neg hplus]
  by_cases hb : b = 37 ∧ i + 2 < bytes.length
  · -- the two bytes are read, but one of them is no digit
    obtain ⟨a, c, tail, rfl⟩ : ∃ a c tail, rest = a :: c :: tail := by
      have hlen := congrArg List.length h
      rw [List.length_drop, List.length_cons] at hlen
      match rest, hlen with
      | [], hlen => simp at hlen; omega
      | [_], hlen => simp at hlen; omega
      | a :: c :: tail, _ => exact ⟨a, c, tail, rfl⟩
    have h1 : index bytes (i + 1) = .ok a := index_of_drop h rfl
    have h2 : index bytes (i + 2) = .ok c := index_of_drop h rfl
    rw [if_pos hb, h1, Run.ok_bind, h2, Run.ok_bind, hex_eq, hex_eq]
    rcases hpercent hb.1 a c tail rfl with ha | hc
    · rw [ha]
      rfl
    · rw [hc]
      cases hexValue a <;> rfl
  · rw [if_neg hb]

/-- **The loop of `urldecode` decodes what is left and adds it to its output.** -/
theorem urldecodeLoop_eq (bytes : Bytes) (i : ℕ) (out : Bytes) :
    urldecodeLoop bytes i out = .ok (out ++ percentDecode (plusToSpace (bytes.drop i))) := by
  -- on the number of bytes left: an escape takes three of them
  generalize hrest : bytes.drop i = rest
  induction hn : rest.length using Nat.strong_induction_on generalizing i out rest with
  | h n ih =>
    cases rest with
    | nil => rw [urldecodeLoop_nil out hrest, plusToSpace_nil, percentDecode, List.append_nil]
    | cons b rest =>
      have hnext : ∀ out, urldecodeLoop bytes (i + 1) out =
          .ok (out ++ percentDecode (plusToSpace rest)) := fun out =>
        ih rest.length (hn ▸ Nat.lt_succ_self _) _ out rest (drop_of_drop [b] hrest) rfl
      by_cases hplus : b = 43
      · subst hplus
        rw [urldecodeLoop_plus out hrest, hnext, plusToSpace_cons, spaceForPlus, if_pos rfl,
          percentDecode_cons_of_ne (by decide), List.append_assoc]
        rfl
      · rw [plusToSpace_cons, spaceForPlus, if_neg hplus]
        by_cases hpercent : b = 37
        · subst hpercent
          rcases noDigits_or_digits rest with hno | ⟨a, c, x, y, tail, rfl, hx, hy⟩
          · rw [urldecodeLoop_copy out hrest hplus fun _ => hno, hnext, percentDecode_percent hno,
              List.append_assoc]
            rfl
          · have htail : bytes.drop (i + 3) = tail := drop_of_drop [37, a, c] hrest
            have hlt : tail.length < n := by
              rw [← hn]
              simp only [List.length_cons]
              omega
            rw [urldecodeLoop_escape out hrest hx hy, ih tail.length hlt _ _ tail htail rfl,
              plusToSpace_cons, plusToSpace_cons,
              percentDecode_escape ((hexValue_spaceForPlus a).trans hx)
                ((hexValue_spaceForPlus c).trans hy), List.append_assoc]
            rfl
        · rw [urldecodeLoop_copy out hrest hplus fun h => absurd h hpercent, hnext,
            percentDecode_cons_of_ne hpercent, List.append_assoc]
          rfl

/-- **`urldecode` never panics and is the reference decoder.** -/
theorem urldecode_eq (s : Str) : urldecode s = .ok (formDecode s) := by
  rw [urldecode, urldecodeLoop_eq, Run.ok_bind, List.nil_append, List.drop_zero]
  rfl

/-- **`urldecode` is the two-phase decoder on every text**, well formed or not: replace `+` by a space,
then decode the escapes, and read the bytes as UTF-8. -/
theorem urldecode_twoPhase (s : Str) :
    ∃ out, (∀ out', PercentDecodes (plusToSpace (utf8 s)) out' ↔ out' = out) ∧
      urldecode s = .ok (fromUtf8Lossy out) := by
  refine ⟨percentDecode (plusToSpace (utf8 s)), percentDecodes_iff _, ?_⟩
  rw [urldecode_eq, formDecode]

/-- Escapes cut off at the end, a `%` before an escape, a `+` inside one, and an escaped `+`. -/
example : formDecode "%4".toList = "%4".toList ∧ formDecode "%%41".toList = "%A".toList ∧
    formDecode "%+41".toList = "% 41".toList ∧ formDecode "%2B+".toList = "+ ".toList := by
  decide

/-! ### The parser against the map of decoded pairs -/

/-- A piece of a query as a decoded pair; without `=` the value is empty. -/
def queryPair (piece : Str) : Str × Str :=
  (formDecode ((splitOnce '=' piece).getD (piece, [])).1,
    formDecode ((splitOnce '=' piece).getD (piece, [])).2)

/-- The decoded pairs of a query string: empty pieces do not count. -/
def queryPairs (qs : Str) : List (Str × Str) :=
  ((qs.splitOn '&').filter fun piece => piece ≠ []).map queryPair

theorem parseQueryLoop_eq (pieces : List Str) (out : HashMap Str Str) :
    parseQueryLoop pieces out =
      .ok (((pieces.filter fun piece => piece ≠ []).map queryPair).foldl formInsert out) := by
  induction pieces generalizing out with
  | nil => rfl
  | cons piece pieces ih =>
      by_cases h : piece = []
      · rw [parseQueryLoop, if_pos h, List.filter_cons_of_neg (by simpa using h), ih]
      · rw [parseQueryLoop, if_neg h, List.filter_cons_of_pos (by simpa using h)]
        simp only [urldecode_eq, Run.ok_bind]
        rw [ih]
        rfl

/-- **The parser never panics and returns the map of the decoded pairs.** -/
theorem parseQuery_eq (qs : Str) : parseQuery qs = .ok (formMap (queryPairs qs)) := by
  unfold parseQuery
  split
  · next h =>
    rw [h]
    rfl
  · rw [parseQueryLoop_eq]
    rfl

/-- The pairs of two queries with `&` between them. -/
theorem queryPairs_append (a b : Str) :
    queryPairs (a ++ '&' :: b) = queryPairs a ++ queryPairs b := by
  rw [queryPairs, List.splitOn_append_cons_self, List.filter_append, List.map_append, queryPairs,
    queryPairs]

/-- **Parsing sends `&` to the merge of maps**, whatever the two texts are. -/
theorem parseQuery_amp (a b : Str) :
    ∃ ma mb m, parseQuery a = .ok ma ∧ parseQuery b = .ok mb ∧
      parseQuery (a ++ "&".toList ++ b) = .ok m ∧ m.keys = ma.keys ∪ mb.keys ∧
      ∀ k, m.get k = mergeValues (ma.get k) (mb.get k) := by
  have hmerge := get_formMap_append (queryPairs a) (queryPairs b)
  refine ⟨_, _, formMap (queryPairs a ++ queryPairs b), parseQuery_eq a, parseQuery_eq b, ?_, ?_,
    hmerge⟩
  · have hsep : a ++ "&".toList ++ b = a ++ '&' :: b := List.append_assoc _ _ _
    rw [hsep, parseQuery_eq, queryPairs_append]
  · ext k
    simp only [Finset.mem_union, mem_keys_formMap, List.map_append, List.mem_append]

theorem amp_notMem_pieces {kvs : List (Str × Str)} {pieces : List Str}
    (h : List.Forall₂ EncodedPair kvs pieces) : ∀ piece ∈ pieces, '&' ∉ piece := by
  induction h with
  | nil => simp
  | cons hkv _ ih => exact List.forall_mem_cons.mpr ⟨hkv.amp_notMem, ih⟩

/-- The pieces are decoded one by one. -/
theorem map_queryPair_pieces {kvs : List (Str × Str)} {pieces : List Str}
    (h : List.Forall₂ EncodedPair kvs pieces) :
    (pieces.filter fun piece => piece ≠ []).map queryPair = kvs := by
  induction h with
  | nil => rfl
  | cons hkv _ ih =>
      obtain ⟨s, t, hsplit, hk, hv⟩ := hkv.splitOnce_eq
      rw [List.filter_cons_of_pos (by simpa using hkv.ne_nil), List.map_cons, ih, queryPair, hsplit,
        Option.getD_some, hk, hv]

/-- The pieces of an encoded query are found and decoded again. -/
theorem queryPairs_encoded {kvs : List (Str × Str)} {qs : Str} (h : EncodedQuery kvs qs) :
    queryPairs qs = kvs := by
  obtain ⟨pieces, hpieces, hqs⟩ := h
  rw [queryPairs, hqs]
  by_cases hnil : pieces = []
  · rw [hnil] at hpieces ⊢
    cases hpieces
    rfl
  · rw [List.splitOn_intercalate '&' (amp_notMem_pieces hpieces) hnil,
      map_queryPair_pieces hpieces]

/-- **Parsing undoes form encoding.** -/
theorem parseQuery_encoded (kvs : List (Str × Str)) (qs : Str) (h : EncodedQuery kvs qs) :
    ∃ m, parseQuery qs = .ok m ∧ (∀ k, k ∈ m.keys ↔ k ∈ kvs.map Prod.fst) ∧
      ∀ k ∈ kvs.map Prod.fst, m.get k = some ([','].intercalate (valuesFor kvs k)) := by
  refine ⟨formMap kvs, ?_, mem_keys_formMap kvs, ?_⟩
  · rw [parseQuery_eq, queryPairs_encoded h]
  · intro k hk
    rw [get_formMap, if_neg]
    intro hnil
    exact (valuesFor_eq_nil_iff kvs k).mp hnil hk

theorem parseQuery_encoded_tags :
    ∃ m, parseQuery "tag=a+b&k%3D=%25&tag=%C3%A9".toList = .ok m ∧
      (∀ k, k ∈ m.keys ↔ k ∈ ["tag".toList, "k=".toList, "tag".toList]) ∧
      ∀ k ∈ ["tag".toList, "k=".toList, "tag".toList], m.get k = some ([','].intercalate (valuesFor
        [("tag".toList, "a b".toList), ("k=".toList, "%".toList), ("tag".toList, "é".toList)] k)) :=
  parseQuery_encoded
    [("tag".toList, "a b".toList), ("k=".toList, "%".toList), ("tag".toList, "é".toList)]
    "tag=a+b&k%3D=%25&tag=%C3%A9".toList (by
      have henc := encodedQuery_encodeQuery
        [("tag".toList, "a b".toList), ("k=".toList, "%".toList), ("tag".toList, "é".toList)]
      exact henc)

end RustApi
