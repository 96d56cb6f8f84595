/-
FtServer/Tokens.lean

A line as its reader sees it: a type token, and the `keyword=value` pairs
between the commas.  `typeToken`, `tokens` and `linePairs` say what these are in
terms of the text alone.

`resolve_eq` connects them to the parser, which splits with compression, reads
each token by a second split and takes the common items out on the way: it
decodes all pairs by the table of the common items, and the others by the table
of the type.
-/
import FtServer.Schema

namespace FtServer

open Decoder

/-! ### The text of a line -/

/-- The text before the first blank. -/
def typeToken (rcvd : Bytes) : Bytes := rcvd.takeWhile (· ≠ 32)

/-- The text after the type and the blanks behind it. -/
def content (rcvd : Bytes) : Bytes := (rcvd.dropWhile (· ≠ 32)).dropWhile (· == 32)

/-- What stands between the commas. -/
def tokens (rcvd : Bytes) : List Bytes := (content rcvd).splitOn 44

/-- The keyword of a token is the text before the first `=`, the value the text
after that run of `=` up to the next `=`; both are trimmed, and a token in which
one of them is empty is malformed. -/
def pairOf (token : Bytes) : Option PairKeyVal :=
  let keyword := trim (token.takeWhile (· ≠ 61))
  let value := trim (((token.dropWhile (· ≠ 61)).dropWhile (· == 61)).takeWhile (· ≠ 61))
  if keyword = [] ∨ value = [] then none else some ⟨keyword, value⟩

/-- The pairs of a line. -/
def linePairs (rcvd : Bytes) : List PairKeyVal := (tokens rcvd).filterMap pairOf

example : linePairs (lit "fileinfo a==1=2,,=3,b = x y ,c=") =
    [⟨lit "a", lit "1"⟩, ⟨lit "b", lit "x y"⟩] := by decide

/-! ### Splitting with compression -/

/-- A token is the text up to the next separator. -/
theorem splitLoop_false (sep : UInt8) (cur s : Bytes) :
    splitLoop sep cur false s = (cur.reverse ++ s.takeWhile (· ≠ sep)) ::
      match s.dropWhile (· ≠ sep) with
      | [] => []
      | _ :: rest => splitLoop sep [] true rest := by
  induction s generalizing cur with
  | nil => simp [splitLoop]
  | cons b s ih =>
    by_cases hb : b = sep
    · simp [splitLoop, hb]
    · simp [splitLoop, hb, ih]

/-- The next token starts after the run of separators. -/
theorem splitLoop_true (sep : UInt8) (s : Bytes) :
    splitLoop sep [] true s = splitLoop sep [] false (s.dropWhile (· == sep)) := by
  induction s with
  | nil => rfl
  | cons b s ih =>
    by_cases hb : b = sep
    · simp [splitLoop, hb, ih]
    · simp [splitLoop, hb]

/-- Compression loses empty tokens only. -/
theorem splitLoop_filter (sep : UInt8) (cur : Bytes) (inSep : Bool) (s : Bytes)
    (h : inSep = true → cur = []) :
    (splitLoop sep cur inSep s).filter (· ≠ []) =
      (List.splitOnPPrepend (· == sep) s cur).filter (· ≠ []) := by
  induction s generalizing cur inSep with
  | nil => simp [splitLoop]
  | cons b s ih =>
    by_cases hb : b = sep
    · have hnext := ih [] true fun _ => rfl
      rw [List.splitOnPPrepend_cons_pos (by simpa using hb)]
      cases inSep with
      | true =>
        obtain rfl := h rfl
        simpa [splitLoop, hb] using hnext
      | false =>
        have hloop : splitLoop sep cur false (b :: s) = cur.reverse :: splitLoop sep [] true s := by
          simp [splitLoop, hb]
        rw [hloop, List.filter_cons, List.filter_cons, hnext, List.splitOnPPrepend_nil_right]
    · rw [List.splitOnPPrepend_cons_neg (by simpa using hb)]
      simpa [splitLoop, hb] using ih (b :: cur) false nofun

theorem splitCompress_filter (sep : UInt8) (s : Bytes) :
    (splitCompress sep s).filter (· ≠ []) = (s.splitOn sep).filter (· ≠ []) :=
  splitLoop_filter sep [] false s nofun

/-! ### Tokens and pairs -/

/-- **`resolve_kv` reads the pair of a token.** -/
theorem resolveKv_eq (token : Bytes) : resolveKv token = pairOf token := by
  have hvalue : (splitCompress 61 token).tail.headD [] =
      ((token.dropWhile (· ≠ 61)).dropWhile (· == 61)).takeWhile (· ≠ 61) := by
    rw [splitCompress, splitLoop_false, List.tail_cons]
    have hhead := List.head?_dropWhile_not (· ≠ 61) token
    generalize token.dropWhile (· ≠ 61) = s at hhead ⊢
    cases s with
    | nil => rfl
    | cons b rest =>
      obtain rfl : b = 61 := by simpa using hhead
      show (splitLoop 61 [] true rest).headD [] = (rest.dropWhile (· == 61)).takeWhile (· ≠ 61)
      rw [splitLoop_true, splitLoop_false]
      rfl
  have hkeyword : (splitCompress 61 token).headD [] = token.takeWhile (· ≠ 61) := by
    rw [splitCompress, splitLoop_false]
    simp
  simp only [resolveKv, pairOf, hvalue, hkeyword, Bool.or_eq_true, List.isEmpty_iff]

/-- An empty token is malformed. -/
theorem pairOf_nil : pairOf [] = none := rfl

theorem filterMap_pairOf_filter (ts : List Bytes) :
    (ts.filter (· ≠ [])).filterMap pairOf = ts.filterMap pairOf := by
  induction ts with
  | nil => rfl
  | cons t ts ih =>
    by_cases ht : t = []
    · rw [ht, List.filterMap_cons, pairOf_nil, List.filter_cons_of_neg (by simp), ih]
    · rw [List.filter_cons_of_pos (by simpa using ht), List.filterMap_cons, List.filterMap_cons, ih]

/-- The tokens that the parser splits off have the pairs of the line. -/
theorem filterMap_resolveKv (rcvd : Bytes) :
    (if (content rcvd).isEmpty then [] else splitCompress 44 (content rcvd)).filterMap resolveKv =
      linePairs rcvd := by
  have hkv : resolveKv = pairOf := funext resolveKv_eq
  rw [hkv, linePairs, tokens]
  by_cases hc : content rcvd = []
  · simp [hc, pairOf_nil]
  · rw [if_neg (by simpa using hc), ← filterMap_pairOf_filter, splitCompress_filter,
      filterMap_pairOf_filter]

/-! ### Common and other items -/

/-- The table of the common items, as the parser reads it. -/
def baseFields : List (ItemField AsciiProtoBase) := baseColumns.map (Column.field unitLib)

/-- The common items are texts, which need no conversion. -/
theorem refuses_baseFields (kv : PairKeyVal) : refuses baseFields kv = false := by
  simp [baseFields, baseColumns, Column.field, Column.text, Kind.conv, refuses]

/-- The pair is no common item. -/
def specific (kv : PairKeyVal) : Bool := baseFields.all fun f => !f.accepts kv

/-- A round of the loop is a step of the table for a common item, and keeps any
other item. -/
theorem resolveKvStep_eq {token : Bytes} {kv : PairKeyVal} (h : resolveKv token = some kv)
    (acc : List PairKeyVal × AsciiProtoBase) :
    Decoder.step baseFields acc.2 kv = .ok (resolveKvStep acc token).2 ∧
      (resolveKvStep acc token).1 = acc.1 ++ [kv].filter specific := by
  have hstep : Decoder.step baseFields acc.2 kv =
      (if iequals kv.keyword (lit "utc") then .ok { acc.2 with utc := kv.value }
      else if iequals kv.keyword (lit "gid") then .ok { acc.2 with gid := kv.value }
      else if iequals kv.keyword (lit "uid") then .ok { acc.2 with uid := kv.value }
      else if iequals kv.keyword (lit "cid") then .ok { acc.2 with cid := kv.value }
      else .ok acc.2) := rfl
  have hspecific : specific kv = (!iequals kv.keyword (lit "utc") &&
      (!iequals kv.keyword (lit "gid") && (!iequals kv.keyword (lit "uid") &&
        (!iequals kv.keyword (lit "cid") && true)))) := rfl
  simp only [hstep, resolveKvStep, h, List.filter_singleton, hspecific]
  split_ifs <;> simp_all

/-- **`resolve_kv_array` decodes the common items** and returns the others. -/
theorem resolveKvArray_eq (ts : List Bytes) :
    Decoder.decode baseFields { type := [] } (ts.filterMap resolveKv) =
        .ok (resolveKvArray ts).2 ∧
      (resolveKvArray ts).1 = (ts.filterMap resolveKv).filter specific := by
  induction ts using List.reverseRecOn with
  | nil => exact ⟨rfl, rfl⟩
  | append_singleton ts t ih =>
    have hlast : resolveKvArray (ts ++ [t]) = resolveKvStep (resolveKvArray ts) t := by
      simp [resolveKvArray]
    rw [hlast, List.filterMap_append, List.filterMap_cons, List.filterMap_nil]
    rcases hkv : resolveKv t with - | kv
    · simpa [resolveKvStep, hkv] using ih
    · obtain ⟨hbase, hrest⟩ := resolveKvStep_eq hkv (resolveKvArray ts)
      rw [decode_concat, ih.1, List.filter_append, hrest, ih.2]
      exact ⟨hbase, rfl⟩

/-! ### The parser -/

variable {δ : Type} (dbl : DoubleLib δ)

/-- **`Resolve` decodes the pairs of the line**: the common items by their table,
the others by the table of the type that the type token selects. -/
theorem resolve_eq (rcvd : Bytes) :
    resolve dbl rcvd = (do
      let b ← Decoder.decode baseFields { type := [] } (linePairs rcvd)
      let proto ← decodeSelected dbl ((linePairs rcvd).filter specific) (select (typeToken rcvd))
      pure (proto.map fun m => m.setBase { b with type := typeToken rcvd })) := by
  obtain ⟨hbase, hrest⟩ := resolveKvArray_eq
    (if (content rcvd).isEmpty then [] else splitCompress 44 (content rcvd))
  rw [filterMap_resolveKv] at hbase hrest
  rw [hbase, ← hrest, ← resolveType_eq]
  rfl

end FtServer
