/-
FtServer/Lines.lean

Lines of pairs, written and read.  `fieldsText` is what the encoders put behind
the type: `keyword=value,` for each pair.  `outputCompacted_fields` says what
`output_compacted` makes of it when the last value ends in a letter or a digit:
only the last comma goes.  `linePairs_line` says that the tokens of the line are
the pairs again, except those with an empty value.
-/
import Mathlib.Data.List.DropRight
import FtServer.Compact
import FtServer.Reading

namespace FtServer

/-! ### Texts -/

/-- A text that can be a keyword or a value: no separator, nothing that ends the
line, and no white space at its ends. -/
def FieldText (s : Bytes) : Prop :=
  (∀ b ∈ s, b ≠ 44 ∧ b ≠ 61 ∧ b ≠ 10 ∧ b ≠ 0) ∧ trim s = s

instance (s : Bytes) : Decidable (FieldText s) :=
  have : Decidable (∀ b ∈ s, b ≠ 44 ∧ b ≠ 61 ∧ b ≠ 10 ∧ b ≠ 0) :=
    List.decidableBAll (fun b => b ≠ 44 ∧ b ≠ 61 ∧ b ≠ 10 ∧ b ≠ 0) s
  inferInstanceAs (Decidable ((∀ b ∈ s, b ≠ 44 ∧ b ≠ 61 ∧ b ≠ 10 ∧ b ≠ 0) ∧ trim s = s))

/-- The text does not end in a byte that `output_compacted` takes off. -/
def EndsPlain (s : Bytes) : Prop :=
  ∃ b, s.getLast? = some b ∧ isPunct b = false ∧ isSpace b = false

/-- A pair in a line, without the comma. -/
def token (kv : String × Bytes) : Bytes := lit kv.1 ++ 61 :: kv.2

/-- The pairs as the encoders write them. -/
def fieldsText (kvs : List (String × Bytes)) : Bytes := kvs.flatMap fun kv => token kv ++ [44]

/-- The pair as it is read; an empty value makes the token malformed. -/
def readBack (kv : String × Bytes) : Option PairKeyVal :=
  if kv.2 = [] then none else some ⟨lit kv.1, kv.2⟩

/-- The keyword can be written and read, in lower case. -/
def KeyText (key : String) : Prop :=
  FieldText (lit key) ∧ lit key ≠ [] ∧ LowerCase (lit key) ∧ (lit key).head? ≠ some 32

instance (key : String) : Decidable (KeyText key) :=
  inferInstanceAs (Decidable (FieldText (lit key) ∧ lit key ≠ [] ∧ LowerCase (lit key) ∧
    (lit key).head? ≠ some 32))

/-! ### Numbers -/

/-- Text without white space is trimmed. -/
theorem trim_of_forall {s : Bytes} (h : ∀ b ∈ s, isSpace b = false) : trim s = s := by
  have hdrop : ∀ u : Bytes, (∀ b ∈ u, isSpace b = false) → u.dropWhile isSpace = u := by
    intro u hu
    cases u with
    | nil => rfl
    | cons b u => exact List.dropWhile_cons_of_neg (by simp [hu b])
  rw [trim, hdrop s h, hdrop s.reverse (fun b hb => h b (List.mem_reverse.mp hb)),
    List.reverse_reverse]

theorem printInt_ne_nil (n : Int32) : printInt n ≠ [] := by
  unfold printInt
  split
  · simp
  · exact printNat_ne_nil _

/-- A number consists of digits and the sign. -/
theorem mem_printInt {n : Int32} {b : UInt8} (h : b ∈ printInt n) : b = 45 ∨ isDigit b = true := by
  unfold printInt at h
  split at h
  · rcases List.mem_cons.mp h with rfl | h
    · exact .inl rfl
    · exact .inr (isDigit_of_mem_printNat _ b h)
  · exact .inr (isDigit_of_mem_printNat _ b h)

theorem fieldText_printInt (n : Int32) : FieldText (printInt n) := by
  refine ⟨fun b hb => ?_, trim_of_forall fun b hb => ?_⟩
  · rcases mem_printInt hb with rfl | hd
    · decide
    · refine ⟨?_, ?_, ?_, ?_⟩ <;> (rintro rfl; exact absurd hd (by decide))
  · rcases mem_printInt hb with rfl | hd
    · decide
    · exact not_isSpace_of_isDigit hd

theorem endsPlain_printInt (n : Int32) : EndsPlain (printInt n) := by
  have hdigits : ∃ b, (printNat n.toInt.natAbs).getLast? = some b ∧ isDigit b = true := by
    refine ⟨_, List.getLast?_eq_some_getLast (printNat_ne_nil _), ?_⟩
    exact isDigit_of_mem_printNat _ _ (List.getLast_mem _)
  obtain ⟨b, hb, hd⟩ := hdigits
  refine ⟨b, ?_, ?_, not_isSpace_of_isDigit hd⟩
  · unfold printInt
    split
    · rw [List.getLast?_cons, hb]
      rfl
    · exact hb
  · unfold isDigit at hd
    unfold isPunct
    grind

/-! ### Writing -/

theorem foldl_joinKv (kvs : List (String × Bytes)) (output : Bytes) :
    kvs.foldl (fun output kv => joinKv output kv.1 kv.2) output = output ++ fieldsText kvs := by
  induction kvs generalizing output with
  | nil => simp [fieldsText]
  | cons kv kvs ih =>
    rw [List.foldl_cons, ih]
    simp [fieldsText, joinKv, token]

/-- The pairs of the base class: ids that are not set are left out. -/
def baseKvs (now : Bytes) (base : AsciiProtoBase) : List (String × Bytes) :=
  ("utc", now) :: [("gid", base.gid), ("uid", base.uid), ("cid", base.cid)].filter (·.2 ≠ [])

theorem compactBase_eq (now : Bytes) (base : AsciiProtoBase) :
    compactBase now base =
      ({ base with utc := now }, base.type ++ 32 :: fieldsText (baseKvs now base)) := by
  rcases base with ⟨type, utc, gid, uid, cid⟩
  cases gid <;> cases uid <;> cases cid <;>
    simp [compactBase, baseKvs, fieldsText, joinKv, token]

/-- What the encoders return. -/
theorem compactFields_eq {α : Type} (now : Bytes) (base : AsciiProtoBase)
    (setBase : AsciiProtoBase → α) (kvs : List (String × Bytes)) :
    compactFields now base setBase kvs =
      (setBase { base with utc := now },
        outputCompacted (base.type ++ 32 :: fieldsText (baseKvs now base ++ kvs))) := by
  simp only [compactFields, compactBase_eq, foldl_joinKv]
  simp [fieldsText]

/-- Text that ends plain loses nothing. -/
theorem rdropWhile_of_endsPlain {s v : Bytes} (h : EndsPlain v) :
    (s ++ v).rdropWhile (fun b => isPunct b || isSpace b) = s ++ v := by
  obtain ⟨b, hb, hp, hs⟩ := h
  obtain ⟨v', rfl⟩ := List.getLast?_eq_some_iff.mp hb
  rw [← List.append_assoc, List.rdropWhile_concat_neg _ _ _ (by simp [hp, hs])]

theorem cstr_of_forall {s : Bytes} (h : ∀ b ∈ s, b ≠ 0) : cstr s = s :=
  List.takeWhile_eq_self_iff.mpr fun b hb => by simpa using h b hb

/-- **`output_compacted` takes off the last comma**, and puts a newline. -/
theorem outputCompacted_fields {type : Bytes} {kvs : List (String × Bytes)} {kv : String × Bytes}
    (htype : ∀ b ∈ type, b ≠ 0) (hkeys : ∀ x ∈ kvs ++ [kv], FieldText (lit x.1))
    (hvalues : ∀ x ∈ kvs ++ [kv], FieldText x.2) (hlast : EndsPlain kv.2) :
    outputCompacted (type ++ 32 :: fieldsText (kvs ++ [kv])) =
      type ++ 32 :: (fieldsText kvs ++ token kv) ++ [10] := by
  have htoken : ∀ x ∈ kvs ++ [kv], ∀ b ∈ token x, b ≠ 0 := by
    intro x hx b hb
    rcases List.mem_append.mp hb with hb | hb
    · exact ((hkeys x hx).1 b hb).2.2.2
    · rcases List.mem_cons.mp hb with rfl | hb
      · decide
      · exact ((hvalues x hx).1 b hb).2.2.2
  have hzero : ∀ b ∈ type ++ 32 :: (fieldsText kvs ++ token kv), b ≠ 0 := by
    intro b hb
    simp only [List.mem_append, List.mem_cons, fieldsText, List.mem_flatMap] at hb
    rcases hb with hb | rfl | ⟨x, hx, hb⟩ | hb
    · exact htype b hb
    · decide
    · rcases hb with hb | hb
      · exact htoken x (List.mem_append_left _ hx) b hb
      · rcases hb with rfl | hb
        · decide
        · simp at hb
    · exact htoken kv (by simp) b hb
  have htext : type ++ 32 :: fieldsText (kvs ++ [kv]) =
      (type ++ 32 :: (fieldsText kvs ++ token kv)) ++ [44] := by
    simp [fieldsText]
  have hplain : type ++ 32 :: (fieldsText kvs ++ token kv) =
      (type ++ 32 :: (fieldsText kvs ++ (lit kv.1 ++ [61]))) ++ kv.2 := by
    simp [token]
  rw [outputCompacted, htext, List.rdropWhile_concat_pos _ _ _ (by decide), hplain,
    rdropWhile_of_endsPlain hlast, ← hplain, cstr_of_forall hzero]

/-! ### Reading -/

/-- All commas but the last stand between tokens. -/
theorem intercalate_concat (ts : List Bytes) (t : Bytes) :
    [44].intercalate (ts ++ [t]) = ts.flatMap (· ++ [44]) ++ t := by
  induction ts with
  | nil => simp
  | cons t' ts ih =>
    rw [List.cons_append, List.intercalate_cons_of_ne_nil (by simp), ih]
    simp

theorem pairOf_token {kv : String × Bytes} (hkey : KeyText kv.1) (hvalue : FieldText kv.2) :
    pairOf (token kv) = readBack kv := by
  obtain ⟨⟨hsep, htrim⟩, hne, -, -⟩ := hkey
  have hkey61 : ∀ b ∈ lit kv.1, decide (b ≠ 61) = true := fun b hb => by
    simpa using (hsep b hb).2.1
  have hvalue61 : ∀ b ∈ kv.2, decide (b ≠ 61) = true := fun b hb => by
    simpa using (hvalue.1 b hb).2.1
  have hkeyword : (token kv).takeWhile (· ≠ 61) = lit kv.1 := by
    rw [token, List.takeWhile_append_of_pos hkey61]
    simp
  have hrest : (token kv).dropWhile (· ≠ 61) = 61 :: kv.2 := by
    rw [token, List.dropWhile_append_of_pos hkey61]
    simp
  have hskip : (61 :: kv.2).dropWhile (· == 61) = kv.2 := by
    rw [List.dropWhile_cons_of_pos (by decide)]
    cases hv : kv.2 with
    | nil => rfl
    | cons b v =>
      have hb := hvalue61 b (by simp [hv])
      exact List.dropWhile_cons_of_neg (by simpa using hb)
  have hvalueText : kv.2.takeWhile (· ≠ 61) = kv.2 := List.takeWhile_eq_self_iff.mpr hvalue61
  simp only [pairOf, hkeyword, hrest, hskip, hvalueText, htrim, hvalue.2, hne, false_or, readBack]

/-- The pairs in a text without a type. -/
def textPairs (s : Bytes) : List PairKeyVal := (s.splitOn 44).filterMap pairOf

theorem linePairs_eq (rcvd : Bytes) : linePairs rcvd = textPairs (content rcvd) := rfl

/-- A comma stands between pairs. -/
theorem textPairs_append (s t : Bytes) : textPairs (s ++ 44 :: t) = textPairs s ++ textPairs t := by
  rw [textPairs, List.splitOn_append_cons_self, List.filterMap_append, textPairs, textPairs]

/-- The key and the value hold no comma. -/
theorem textPairs_token {kv : String × Bytes} (hkey : KeyText kv.1) (hvalue : FieldText kv.2) :
    textPairs (token kv) = [kv].filterMap readBack := by
  have hcomma : (44 : UInt8) ∉ token kv := by
    intro hb
    rcases List.mem_append.mp hb with hb | hb
    · exact (hkey.1.1 _ hb).1 rfl
    · rcases List.mem_cons.mp hb with hb | hb
      · exact absurd hb (by decide)
      · exact (hvalue.1 _ hb).1 rfl
  rw [textPairs, List.splitOn_eq_singleton hcomma, List.filterMap_cons, List.filterMap_cons,
    pairOf_token hkey hvalue, List.filterMap_nil, List.filterMap_nil]

/-- Pairs that are written in front are read in front. -/
theorem textPairs_fields {kvs : List (String × Bytes)} (hkeys : ∀ x ∈ kvs, KeyText x.1)
    (hvalues : ∀ x ∈ kvs, FieldText x.2) (s : Bytes) :
    textPairs (fieldsText kvs ++ s) = kvs.filterMap readBack ++ textPairs s := by
  induction kvs with
  | nil => simp [fieldsText]
  | cons kv kvs ih =>
    obtain ⟨hkey, hkeys⟩ := List.forall_mem_cons.mp hkeys
    obtain ⟨hvalue, hvalues⟩ := List.forall_mem_cons.mp hvalues
    have htext : fieldsText (kv :: kvs) ++ s = token kv ++ 44 :: (fieldsText kvs ++ s) := by
      simp [fieldsText]
    have hsplit :
        (kv :: kvs).filterMap readBack = [kv].filterMap readBack ++ kvs.filterMap readBack :=
      List.filterMap_append (l := [kv])
    rw [htext, textPairs_append, textPairs_token hkey hvalue, ih hkeys hvalues, hsplit,
      List.append_assoc]

/-- The type of a line. -/
theorem typeToken_line {type : Bytes} (htype : ∀ b ∈ type, b ≠ 32) (s : Bytes) :
    typeToken (type ++ 32 :: s) = type := by
  have hblank : ∀ b ∈ type, decide (b ≠ 32) = true := fun b hb => by simpa using htype b hb
  rw [typeToken, List.takeWhile_append_of_pos hblank]
  simp

/-- The text behind the type. -/
theorem content_line {type s : Bytes} (htype : ∀ b ∈ type, b ≠ 32) (hs : s.head? ≠ some 32) :
    content (type ++ 32 :: s) = s := by
  have hblank : ∀ b ∈ type, decide (b ≠ 32) = true := fun b hb => by simpa using htype b hb
  rw [content, List.dropWhile_append_of_pos hblank, List.dropWhile_cons_of_neg (by simp),
    List.dropWhile_cons_of_pos (by decide)]
  cases s with
  | nil => rfl
  | cons b s => exact List.dropWhile_cons_of_neg (by simpa using hs)

/-- Pairs start with a keyword, not with a blank. -/
theorem head_fields_ne {kvs : List (String × Bytes)} (hkeys : ∀ x ∈ kvs, KeyText x.1) {s : Bytes}
    (hs : s.head? ≠ some 32) : (fieldsText kvs ++ s).head? ≠ some 32 := by
  cases kvs with
  | nil => simpa [fieldsText] using hs
  | cons kv kvs =>
    obtain ⟨-, hne, -, hb⟩ := hkeys kv List.mem_cons_self
    obtain ⟨b, key, hkey⟩ := List.exists_cons_of_ne_nil hne
    simpa [fieldsText, token, hkey] using hb

/-- **The tokens of a line are its pairs.** -/
theorem linePairs_line {type : Bytes} {kvs : List (String × Bytes)} {kv : String × Bytes}
    (htype : ∀ b ∈ type, b ≠ 32) (hkeys : ∀ x ∈ kvs ++ [kv], KeyText x.1)
    (hvalues : ∀ x ∈ kvs ++ [kv], FieldText x.2) :
    typeToken (type ++ 32 :: (fieldsText kvs ++ token kv)) = type ∧
      linePairs (type ++ 32 :: (fieldsText kvs ++ token kv)) =
        (kvs ++ [kv]).filterMap readBack := by
  have hkv : KeyText kv.1 := hkeys kv (by simp)
  have hhead : (token kv).head? ≠ some 32 := by
    obtain ⟨-, hne, -, hb⟩ := hkv
    obtain ⟨b, key, hkey⟩ := List.exists_cons_of_ne_nil hne
    simpa [token, hkey] using hb
  have hkvs : ∀ x ∈ kvs, KeyText x.1 := fun x hx => hkeys x (List.mem_append_left _ hx)
  refine ⟨typeToken_line htype _, ?_⟩
  rw [linePairs_eq, content_line htype (head_fields_ne hkvs hhead),
    textPairs_fields hkvs (fun x hx => hvalues x (List.mem_append_left _ hx)),
    textPairs_token hkv (hvalues kv (by simp)), List.filterMap_append]

end FtServer
