/-
FtServer/CaseFolding.lean

Letter case in lines.  All comparisons of the parser ignore case, but those of
sixteen types and of six keywords of `object` stand behind a dispatch on the
first character, which does not.

`CaseVariant` relates two lines that differ in the case of letters of the type
token and the keywords only.  Their pairs correspond (`CaseVariant.pairs`), and
the tree of comparisons finds a type by its name in any case, if the first letter
passes the dispatch (`select_iff`).  `caseVariants_iff` says when the parser makes
the same of two variants, and of all variants of a line.
-/
import FtServer.Conversions
import FtServer.Reading
import Mathlib.Data.List.Forall2

namespace FtServer

open Decoder

/-! ### Upper case -/

/-- The text in upper case. -/
def upper (s : Bytes) : Bytes := s.map toUpper

theorem iequals_iff {s t : Bytes} : iequals s t = true ↔ upper s = upper t := beq_iff_eq

theorem iequals_congr {s s' : Bytes} (h : upper s = upper s') (t : Bytes) :
    iequals s t = iequals s' t := by
  rw [Bool.eq_iff_iff, iequals_iff, iequals_iff, h]

/-- The case does not touch the bytes before the letters. -/
theorem toUpper_eq_iff {b c : UInt8} (hc : c < 65) : toUpper b = c ↔ b = c := by
  unfold toUpper
  grind

theorem isSpace_toUpper (b : UInt8) : isSpace (toUpper b) = isSpace b := by
  unfold isSpace toUpper
  grind

theorem takeWhile_upper {p : UInt8 → Bool} (hp : ∀ b, p (toUpper b) = p b) (s : Bytes) :
    (upper s).takeWhile p = upper (s.takeWhile p) := by
  rw [upper, List.takeWhile_map]
  exact congrArg (fun q => upper (s.takeWhile q)) (funext hp)

theorem dropWhile_upper {p : UInt8 → Bool} (hp : ∀ b, p (toUpper b) = p b) (s : Bytes) :
    (upper s).dropWhile p = upper (s.dropWhile p) := by
  rw [upper, List.dropWhile_map]
  exact congrArg (fun q => upper (s.dropWhile q)) (funext hp)

theorem ne_toUpper {c : UInt8} (hc : c < 65) (b : UInt8) :
    decide (toUpper b ≠ c) = decide (b ≠ c) :=
  decide_eq_decide.mpr (not_congr (toUpper_eq_iff hc))

theorem beq_toUpper {c : UInt8} (hc : c < 65) (b : UInt8) : (toUpper b == c) = (b == c) := by
  rw [Bool.eq_iff_iff, beq_iff_eq, beq_iff_eq, toUpper_eq_iff hc]

theorem trim_upper (s : Bytes) : trim (upper s) = upper (trim s) := by
  rw [trim, dropWhile_upper isSpace_toUpper, upper, ← List.map_reverse]
  show ((upper (s.dropWhile isSpace).reverse).dropWhile isSpace).reverse = _
  rw [dropWhile_upper isSpace_toUpper, upper, ← List.map_reverse]
  rfl

theorem splitOn_upper (s : Bytes) : (upper s).splitOn 44 = (s.splitOn 44).map upper := by
  rw [List.splitOn_eq_splitOnP, List.splitOn_eq_splitOnP]
  induction s with
  | nil => rfl
  | cons b s ih =>
    rw [upper, List.map_cons, List.splitOnP_cons_eq_if_modifyHead, beq_toUpper (by decide), ← upper,
      ih, List.splitOnP_cons_eq_if_modifyHead]
    split
    · rfl
    · cases s.splitOnP (· == 44) <;> rfl

theorem typeToken_upper (s : Bytes) : typeToken (upper s) = upper (typeToken s) :=
  takeWhile_upper (ne_toUpper (by decide)) s

theorem content_upper (s : Bytes) : content (upper s) = upper (content s) := by
  rw [content, dropWhile_upper (ne_toUpper (by decide)), dropWhile_upper (beq_toUpper (by decide)),
    content]

theorem tokens_upper (s : Bytes) : tokens (upper s) = (tokens s).map upper := by
  rw [tokens, content_upper, splitOn_upper, tokens]

/-! ### Variants of a line -/

/-- What a token has from its first `=` on. -/
def valuePart (token : Bytes) : Bytes := token.dropWhile (· ≠ 61)

/-- The lines differ in the case of letters only, and behind the keywords not
even in that. -/
def CaseVariant (s s' : Bytes) : Prop :=
  iequals s s' = true ∧ (tokens s).map valuePart = (tokens s').map valuePart

instance (s s' : Bytes) : Decidable (CaseVariant s s') :=
  inferInstanceAs (Decidable (_ ∧ _))

/-- The pairs have the same value, and keywords that differ in case only. -/
def SameItem (kv kv' : PairKeyVal) : Prop :=
  iequals kv.keyword kv'.keyword = true ∧ kv.value = kv'.value

theorem upper_eq_nil_iff {s : Bytes} : upper s = [] ↔ s = [] := List.map_eq_nil_iff

/-- Tokens with the same value part are read as the same item. -/
theorem pairOf_variant {token token' : Bytes} (hu : upper token = upper token')
    (hv : valuePart token = valuePart token') :
    Option.Rel SameItem (pairOf token) (pairOf token') := by
  have hkey :
      upper (trim (token.takeWhile (· ≠ 61))) = upper (trim (token'.takeWhile (· ≠ 61))) := by
    rw [← trim_upper, ← trim_upper, ← takeWhile_upper (ne_toUpper (by decide)),
      ← takeWhile_upper (ne_toUpper (by decide)), hu]
  have hnil : trim (token.takeWhile (· ≠ 61)) = [] ↔ trim (token'.takeWhile (· ≠ 61)) = [] := by
    rw [← upper_eq_nil_iff, hkey, upper_eq_nil_iff]
  have hvalue : token.dropWhile (· ≠ 61) = token'.dropWhile (· ≠ 61) := hv
  simp only [pairOf, hvalue, hnil]
  split
  · exact .none
  · exact .some ⟨iequals_iff.mpr hkey, rfl⟩

theorem forall₂_of_map_eq {α β : Type} {f : α → β} {xs ys : List α} (h : xs.map f = ys.map f) :
    List.Forall₂ (fun x y => f x = f y) xs ys := by
  rw [← List.forall₂_eq_eq_eq] at h
  exact List.forall₂_map_left_iff.mp (List.forall₂_map_right_iff.mp h)

/-- The pairs of a variant are the same items, in the same order. -/
theorem CaseVariant.pairs {s s' : Bytes} (h : CaseVariant s s') :
    List.Forall₂ SameItem (linePairs s) (linePairs s') := by
  have hupper : (tokens s).map upper = (tokens s').map upper := by
    rw [← tokens_upper, ← tokens_upper, iequals_iff.mp h.1]
  have htokens := List.Forall₂.mp (fun _ _ hu hv => And.intro hu hv) (forall₂_of_map_eq hupper)
    (forall₂_of_map_eq h.2)
  exact List.rel_filterMap (fun _ _ ht => pairOf_variant ht.1 ht.2) htokens

theorem CaseVariant.type {s s' : Bytes} (h : CaseVariant s s') :
    upper (typeToken s) = upper (typeToken s') := by
  rw [← typeToken_upper, ← typeToken_upper, iequals_iff.mp h.1]

/-! ### Types in any case -/

/-- The type stands behind the dispatch on the first character. -/
def MsgType.dispatched (t : MsgType) : Bool :=
  [97, 102, 111, 114, 115, 116].contains (t.name.headD 0)

/-- A token names one type at most, also without regard to case. -/
theorem MsgType.eq_of_iequals {type : Bytes} {t u : MsgType} (ht : iequals type t.name = true)
    (hu : iequals type u.name = true) : t = u := by
  exact MsgType.name_injective
    ((iequals_iff_eq t.name_lower u.name_lower).mp (iequals_of_iequals ht hu))

/-- What the dispatch compares as it is. -/
theorem select_head {type : Bytes} {t : MsgType} (h : select type = some t)
    (ht : t.dispatched = true) : type.headD 0 = t.name.headD 0 := by
  have hall : ∀ t : MsgType, select type = some t → t.dispatched = true →
      type.headD 0 = t.name.headD 0 := by
    simp only [select]
    repeat'
      refine iteInduction (motive := fun o => ∀ t : MsgType, o = some t → t.dispatched = true →
        type.headD 0 = t.name.headD 0) (fun _ => ?_) fun _ => ?_
    all_goals rintro _ ⟨⟩ ht
    all_goals
      first
      | exact absurd ht (by decide)
      | exact beq_iff_eq.mp ‹_›
  exact hall t h ht

/-- The other types start with other letters. -/
theorem MsgType.head_ne {t : MsgType} (ht : t.dispatched = false) :
    [97, 102, 111, 114, 115, 116].all (fun c => toUpper c != toUpper (t.name.headD 0)) = true := by
  revert ht
  cases t <;> decide

/-- **The tree finds a type by its name in any case, if the first letter passes
the dispatch.** -/
theorem select_iff {type : Bytes} {t : MsgType} : select type = some t ↔
    iequals type t.name = true ∧ (t.dispatched = true → type.headD 0 = t.name.headD 0) := by
  constructor
  · intro h
    exact ⟨select_iequals h, select_head h⟩
  · rintro ⟨h, hhead⟩
    have hcongr (u : MsgType) : iequals type u.name = iequals t.name u.name :=
      iequals_congr (iequals_iff.mp h) _
    cases ht : t.dispatched with
    | true =>
      have hsel := select_name t
      simp only [select, hcongr, hhead ht] at hsel ⊢
      exact hsel
    | false =>
      have hne := t.head_ne ht
      rw [← iequals_head h] at hne
      have hch (c : UInt8) (hc : toUpper c ≠ toUpper (type.headD 0)) :
          (type.headD 0 == c) = false :=
        beq_false_of_ne fun heq => hc (heq ▸ rfl)
      simp only [List.all_cons, List.all_nil, Bool.and_true, Bool.and_eq_true, bne_iff_ne] at hne
      obtain ⟨h₁, h₂, h₃, h₄, h₅, h₆⟩ := hne
      simp only [select, hcongr, hch _ h₁, hch _ h₂, hch _ h₃, hch _ h₄, hch _ h₅, hch _ h₆,
        Bool.false_eq_true, ↓reduceIte]
      clear hcongr h hhead h₁ h₂ h₃ h₄ h₅ h₆ hch
      revert ht
      cases t <;> decide

/-! ### Fields of variants -/

namespace Column

variable {δ α : Type}

/-- A column that compares without regard to case treats variants alike. -/
theorem alike {c : Column δ α} (hc : c.exact = false) {kv kv' : PairKeyVal} (h : SameItem kv kv') :
    (c.field dbl).Alike kv kv' := by
  refine ⟨?_, congrArg (c.kind.conv dbl) h.2⟩
  show c.accepts kv = c.accepts kv'
  simp only [accepts, hc]
  exact iequals_congr (iequals_iff.mp h.1) _

end Column

theorem baseFields_alike {kv kv' : PairKeyVal} (h : SameItem kv kv') :
    ∀ f ∈ baseFields, f.Alike kv kv' := by
  intro f hf
  obtain ⟨c, hc, rfl⟩ := List.mem_map.mp hf
  have hexact : ∀ c ∈ baseColumns, c.exact = false := by simp [baseColumns, Column.text]
  exact Column.alike (hexact c hc) h

/-- The common items are decoded alike. -/
theorem CaseVariant.decode_base {s s' : Bytes} (h : CaseVariant s s') (b : AsciiProtoBase) :
    Decoder.decode baseFields b (linePairs s) = Decoder.decode baseFields b (linePairs s') :=
  decode_congr (h.pairs.imp fun _ _ => baseFields_alike) b

/-! ### Messages of variants -/

section

variable {δ : Type} (dbl : DoubleLib δ)

/-- A message without the type that it stores. -/
def Apbase.untagged (m : Apbase δ) : Apbase δ := m.setBase { m.base with type := [] }

/-- Both are null pointers, or messages of one struct with the same fields, the
stored type apart. -/
def SameMessage : Except StdException (Option (Apbase δ)) →
    Except StdException (Option (Apbase δ)) → Prop
  | .ok none, .ok none => True
  | .ok (some m), .ok (some m') => m.untagged = m'.untagged
  | _, _ => False

/-- Every number converts that the line has for the type it names in any case. -/
def NumbersConvert (rcvd : Bytes) : Prop :=
  ∀ t : MsgType, iequals (typeToken rcvd) t.name = true →
    ∀ c ∈ (schema dbl t).columns, ∀ kv ∈ linePairs rcvd,
      iequals kv.keyword (lit c.key) = true → ∃ y, c.kind.conv dbl kv.value = .ok y

/-- Where the first letter counts, the lines agree: it is the same in the two type
tokens, if the type stands behind the dispatch, and the last items whose keyword
has it as it is convert to the same. -/
structure CaseKept (s s' : Bytes) : Prop where
  type : ∀ t : MsgType, t.dispatched = true → iequals (typeToken s) t.name = true →
    (typeToken s).headD 0 = (typeToken s').headD 0
  keywords : ∀ t, select (typeToken s) = some t → ∀ c ∈ (schema dbl t).columns, c.exact = true →
    (c.field dbl).value (linePairs s) (c.get (schema dbl t).init) =
      (c.field dbl).value (linePairs s') (c.get (schema dbl t).init)

/-! ### What a line with the type selected is read as -/

variable {dbl}

theorem resolve_selected {s : Bytes} (hconv : NumbersConvert dbl s) {t : MsgType}
    (hsel : select (typeToken s) = some t) :
    ∃ p b, resolve dbl s =
        .ok (some (((schema dbl t).apbase p).setBase { b with type := typeToken s })) ∧
      Decoder.decode baseFields { type := [] } (linePairs s) = .ok b ∧
      ∀ c ∈ (schema dbl t).columns,
        c.get p = (c.field dbl).value (linePairs s) (c.get (schema dbl t).init) := by
  obtain ⟨b, hb⟩ := decode_base_ok (linePairs s)
  obtain ⟨p, hp, hvalues⟩ := decode_columns fun c hc kv hkv hacc =>
    hconv t (select_iequals hsel) c hc kv hkv (Column.iequals_of_accepts hacc)
  refine ⟨p, b, ?_, hb, hvalues⟩
  rw [resolve_eq, hb, hsel, decodeSelected, hp]
  rfl

theorem resolve_unselected {s : Bytes} (hsel : select (typeToken s) = none) :
    resolve dbl s = .ok none := by
  obtain ⟨b, hb⟩ := decode_base_ok (linePairs s)
  rw [resolve_eq, hb, hsel]
  rfl

/-- Messages of one type agree, the stored type apart, exactly if their fields
do. -/
theorem untagged_eq_iff {t : MsgType} {p q : (schema dbl t).α} {b : AsciiProtoBase}
    (type type' : Bytes) :
    (((schema dbl t).apbase p).setBase { b with type := type }).untagged =
        (((schema dbl t).apbase q).setBase { b with type := type' }).untagged ↔
      ∀ c ∈ (schema dbl t).columns, c.get p = c.get q := by
  simp only [Apbase.untagged, Apbase.base_setBase, Apbase.setBase_setBase]
  constructor
  · exact get_eq_of_setBase_eq
  · intro h
    exact schema_ext dbl h _

/-- The types in front of the dispatch have no keyword with a first letter that
counts. -/
theorem exact_eq_false {t : MsgType} (ht : t.dispatched = false) :
    ∀ c ∈ (schema dbl t).columns, c.exact = false := by
  have hall : (schema dbl t).columns.Forall fun c => c.exact = false := by
    cases t with
    | camera => exact ⟨rfl, rfl, rfl⟩
    | expose => exact rfl
    | mount => exact ⟨rfl, rfl, rfl, rfl, rfl, rfl⟩
    | park => exact trivial
    | homeSync => exact ⟨rfl, rfl⟩
    | _ => exact absurd ht (by decide)
  exact List.forall_iff_forall_mem.mp hall

theorem exists_of_forall₂_right {α β : Type} {R : α → β → Prop} {xs : List α} {ys : List β}
    (h : List.Forall₂ R xs ys) {y : β} (hy : y ∈ ys) : ∃ x ∈ xs, R x y := by
  induction h with
  | nil => cases hy
  | @cons x y' xs ys hxy _ ih =>
    rcases List.mem_cons.mp hy with rfl | hy
    · exact ⟨x, List.mem_cons_self, hxy⟩
    · obtain ⟨z, hz, hzy⟩ := ih hy
      exact ⟨z, List.mem_cons_of_mem _ hz, hzy⟩

/-- The numbers of a variant are the same. -/
theorem NumbersConvert.variant {s s' : Bytes} (h : NumbersConvert dbl s) (hvar : CaseVariant s s') :
    NumbersConvert dbl s' := by
  intro t ht c hc kv' hkv' hkey
  obtain ⟨kv, hkv, hsame⟩ := exists_of_forall₂_right hvar.pairs hkv'
  rw [← iequals_congr hvar.type] at ht
  rw [← iequals_congr (iequals_iff.mp hsame.1)] at hkey
  rw [← hsame.2]
  exact h t ht c hc kv hkv hkey

/-- The fields that are compared without regard to case have the same value. -/
theorem value_variant {s s' : Bytes} (hvar : CaseVariant s s') {α : Type} {c : Column δ α}
    (hc : c.exact = false) (d : c.kind.type δ) :
    (c.field dbl).value (linePairs s) d = (c.field dbl).value (linePairs s') d :=
  Field.value_congr (f := c.field dbl) (hvar.pairs.imp fun _ _ => Column.alike hc) d

/-- Where both lines select the type, the fields decide that compare the first
letter as it is. -/
theorem sameMessage_selected {s s' : Bytes} (hvar : CaseVariant s s')
    (hconv : NumbersConvert dbl s) {t : MsgType} (hs : select (typeToken s) = some t)
    (hs' : select (typeToken s') = some t) :
    SameMessage (resolve dbl s) (resolve dbl s') ↔
      ∀ c ∈ (schema dbl t).columns, c.exact = true →
        (c.field dbl).value (linePairs s) (c.get (schema dbl t).init) =
          (c.field dbl).value (linePairs s') (c.get (schema dbl t).init) := by
  obtain ⟨p, b, hr, hb, hp⟩ := resolve_selected hconv hs
  obtain ⟨p', b', hr', hb', hp'⟩ := resolve_selected (hconv.variant hvar) hs'
  rw [hvar.decode_base, hb'] at hb
  obtain rfl := Except.ok.inj hb
  rw [hr, hr', SameMessage, untagged_eq_iff]
  refine forall₂_congr fun c hc => ?_
  rw [hp c hc, hp' c hc]
  cases hexact : c.exact with
  | true => exact ⟨fun h _ => h, fun h => h rfl⟩
  | false =>
    simp only [Bool.false_eq_true, false_imp_iff, iff_true]
    exact value_variant hvar hexact _

/-! ### Agreement -/

/-- A type that is named in any case is selected, or none is. -/
theorem select_named {type : Bytes} {t : MsgType} (h : iequals type t.name = true) :
    select type = some t ∨ select type = none ∧ t.dispatched = true ∧
      type.headD 0 ≠ t.name.headD 0 := by
  cases hs : select type with
  | none =>
    have hnot := mt select_iff.mpr (hs ▸ nofun : ¬ select type = some t)
    exact .inr ⟨rfl, by tauto⟩
  | some u => exact .inl (congrArg some (MsgType.eq_of_iequals (select_iequals hs) h))

/-- The two first letters that the dispatch tells apart. -/
theorem head_eq_of_ne {t : MsgType} {b c : UInt8} (hb : toUpper b = toUpper (t.name.headD 0))
    (hc : toUpper c = toUpper (t.name.headD 0)) (hb' : b ≠ t.name.headD 0)
    (hc' : c ≠ t.name.headD 0) : b = c := by
  have hlower : 97 ≤ t.name.headD 0 ∧ t.name.headD 0 ≤ 122 := by cases t <;> decide
  generalize t.name.headD 0 = n at *
  unfold toUpper at hb hc
  grind

/-- On two lines that differ in the case of the type token and the keywords
only, `Resolve` returns the same exactly if `CaseKept`. -/
theorem sameMessage_iff {s s' : Bytes} (hvar : CaseVariant s s') (hconv : NumbersConvert dbl s) :
    SameMessage (resolve dbl s) (resolve dbl s') ↔ CaseKept dbl s s' := by
  by_cases hname : ∃ t : MsgType, iequals (typeToken s) t.name = true
  · obtain ⟨t, ht⟩ := hname
    have ht' : iequals (typeToken s') t.name = true := iequals_congr hvar.type _ ▸ ht
    have honly {u : MsgType} (hu : iequals (typeToken s) u.name = true) : u = t :=
      MsgType.eq_of_iequals hu ht
    rcases select_named ht with hs | ⟨hs, hdisp, hhead⟩
    · rcases select_named ht' with hs' | ⟨hs', hdisp, hhead'⟩
      · -- both lines have the type
        rw [sameMessage_selected hvar hconv hs hs']
        constructor
        · intro h
          refine ⟨fun u hdisp hu => ?_, fun u hu => ?_⟩
          · obtain rfl := honly hu
            rw [select_head hs hdisp, select_head hs' hdisp]
          · obtain rfl := Option.some.inj (hs.symm.trans hu)
            exact h
        · intro h
          exact h.keywords t hs
      · -- the second line is not recognised
        obtain ⟨p, b, hr, -⟩ := resolve_selected hconv hs
        rw [hr, resolve_unselected hs']
        apply iff_of_false id
        intro h
        exact hhead' ((h.type t hdisp ht).symm.trans (select_head hs hdisp))
    · have hr : resolve dbl s = .ok none := resolve_unselected hs
      rcases select_named ht' with hs' | ⟨hs', -, hhead'⟩
      · -- the first line is not recognised
        obtain ⟨p, b, hr', -⟩ := resolve_selected (hconv.variant hvar) hs'
        rw [hr, hr']
        apply iff_of_false id
        intro h
        exact hhead ((h.type t hdisp ht).trans (select_head hs' hdisp))
      · -- neither is
        rw [hr, resolve_unselected hs', SameMessage]
        simp only [true_iff]
        refine ⟨fun u _ hu => ?_, fun u hu => nomatch hs.symm.trans hu⟩
        obtain rfl := honly hu
        exact head_eq_of_ne (iequals_head ht) (iequals_head ht') hhead hhead'
  · -- no type is named, in any case
    have hnone {r : Bytes} (hr : upper (typeToken r) = upper (typeToken s)) :
        select (typeToken r) = none := by
      rw [Option.eq_none_iff_forall_ne_some]
      intro t ht
      exact hname ⟨t, iequals_congr hr _ ▸ select_iequals ht⟩
    rw [resolve_unselected (hnone rfl), resolve_unselected (hnone hvar.type.symm), SameMessage]
    simp only [true_iff]
    exact ⟨fun t _ ht => absurd ⟨t, ht⟩ hname, fun t ht => nomatch (hnone rfl).symm.trans ht⟩

/-- A letter in the other case. -/
def otherCase (b : UInt8) : UInt8 := if 97 ≤ b then b - 32 else b + 32

/-- A line that names a type behind the dispatch has a variant with another first
letter. -/
theorem exists_variant {s : Bytes} {t : MsgType} (ht : iequals (typeToken s) t.name = true) :
    ∃ s', CaseVariant s s' ∧ (typeToken s).headD 0 ≠ (typeToken s').headD 0 := by
  have hhead := iequals_head ht
  have hlower : 97 ≤ t.name.headD 0 ∧ t.name.headD 0 ≤ 122 := by cases t <;> decide
  generalize t.name.headD 0 = n at hhead hlower
  have hletter : (97 ≤ (typeToken s).headD 0 ∧ (typeToken s).headD 0 ≤ 122) ∨
      (65 ≤ (typeToken s).headD 0 ∧ (typeToken s).headD 0 ≤ 90) := by
    generalize (typeToken s).headD 0 = b at hhead
    unfold toUpper at hhead
    grind
  cases s with
  | nil => exact absurd hletter (by decide)
  | cons b s =>
    by_cases hb : b = 32
    · subst hb
      exact absurd hletter (by simp [typeToken])
    · have hcons {c : UInt8} (hc : c ≠ 32) : typeToken (c :: s) = c :: typeToken s := by
        simp [typeToken, hc]
      have hcontent {c : UInt8} (hc : c ≠ 32) : tokens (c :: s) = tokens s := by
        simp [tokens, content, hc]
      rw [hcons hb, List.headD_cons] at hletter ⊢
      have hother : otherCase b ≠ 32 ∧ b ≠ otherCase b ∧ toUpper b = toUpper (otherCase b) := by
        unfold otherCase toUpper
        grind
      refine ⟨otherCase b :: s, ⟨?_, ?_⟩, ?_⟩
      · rw [iequals_iff, upper, upper, List.map_cons, List.map_cons, hother.2.2]
      · rw [hcontent hb, hcontent hother.1]
      · rw [hcons hother.1, List.headD_cons]
        exact hother.2.1

end

/-- **Letter case counts where the parser dispatches on the first character**: a
line and a variant of it are read as the same exactly if the first letters that
count are kept, and all variants of a line are read as the same exactly if its
type token names, in no case, a type behind the dispatch. -/
theorem caseVariants_iff {δ : Type} {dbl : DoubleLib δ} {s : Bytes} (hconv : NumbersConvert dbl s) :
    (∀ s', CaseVariant s s' →
      (SameMessage (resolve dbl s) (resolve dbl s') ↔ CaseKept dbl s s')) ∧
    ((∀ s', CaseVariant s s' → SameMessage (resolve dbl s) (resolve dbl s')) ↔
      ∀ t : MsgType, t.dispatched = true → iequals (typeToken s) t.name = false) := by
  refine ⟨fun s' hvar => sameMessage_iff hvar hconv, ?_, ?_⟩
  · intro h t hdisp
    rw [← Bool.not_eq_true]
    intro ht
    obtain ⟨s', hvar, hne⟩ := exists_variant ht
    exact hne (((sameMessage_iff hvar hconv).mp (h s' hvar)).type t hdisp ht)
  · intro h s' hvar
    refine (sameMessage_iff hvar hconv).mpr ⟨fun t hdisp ht => ?_, fun t ht c hc hexact => ?_⟩
    · exact absurd ht (by simp [h t hdisp])
    · -- only `object` compares first letters, which stands behind the dispatch
      cases hdisp : t.dispatched with
      | true => exact absurd (select_iequals ht) (by simp [h t hdisp])
      | false =>
        have hnone := exact_eq_false hdisp c hc
        rw [hexact] at hnone
        cases hnone

theorem numbersConvert_focus : NumbersConvert unitLib (lit "focus value=5") := by
  have hname : iequals (typeToken (lit "focus value=5")) MsgType.focus.name = true := by
    decide +kernel
  have hpairs : linePairs (lit "focus value=5") = [⟨lit "value", lit "5"⟩] := by decide +kernel
  intro t ht c hc kv hkv hkey
  obtain rfl := MsgType.eq_of_iequals ht hname
  rw [hpairs] at hkv
  obtain rfl := List.mem_singleton.mp hkv
  have hall : (schema unitLib .focus).columns.Forall fun c =>
      ∃ y, c.kind.conv unitLib (lit "5") = .ok y := ⟨⟨(5 : Int32), rfl⟩, (5 : Int32), rfl⟩
  exact List.forall_iff_forall_mem.mp hall c hc

/-- Behind the first letter the case is free. -/
theorem caseVariants_focus :
    SameMessage (resolve unitLib (lit "focus value=5")) (resolve unitLib (lit "fOCUS VALUE=5")) ∧
      ¬ ∀ s', CaseVariant (lit "focus value=5") s' →
        SameMessage (resolve unitLib (lit "focus value=5")) (resolve unitLib s') := by
  have hname : iequals (typeToken (lit "focus value=5")) MsgType.focus.name = true := by
    decide +kernel
  obtain ⟨hpair, hall⟩ := caseVariants_iff numbersConvert_focus
  refine ⟨(hpair _ (by decide +kernel)).mpr ⟨fun t _ _ => by decide +kernel, fun t ht => ?_⟩, ?_⟩
  · obtain rfl := MsgType.eq_of_iequals (select_iequals ht) hname
    exact List.forall_iff_forall_mem.mp ⟨nofun, nofun⟩
  · intro h
    exact absurd hname (by rw [hall.mp h _ (by decide)]; decide)

/-- With an upper case letter in front the line is not recognised. -/
theorem not_sameMessage_focus :
    CaseVariant (lit "focus value=5") (lit "Focus value=5") ∧
      NumbersConvert unitLib (lit "focus value=5") ∧
      ¬ SameMessage (resolve unitLib (lit "focus value=5"))
        (resolve unitLib (lit "Focus value=5")) := by
  refine ⟨by decide +kernel, numbersConvert_focus, fun h => ?_⟩
  have hnone : resolve unitLib (lit "Focus value=5") = .ok none := resolve_unselected (by decide)
  obtain ⟨p, b, hsome, -⟩ := resolve_selected numbersConvert_focus (by decide : _ = some .focus)
  rw [hnone, hsome] at h
  exact h

end FtServer
