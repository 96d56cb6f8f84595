/-
FtServer/Overloads.lean

Two encoders of one command.  For seven commands there is an encoder that takes
a message and one that takes the plain arguments, written apart.  The first puts
the time tag and the ids in front and checks its arguments; the second builds a
header without them, and checks nothing.

`encodersAgree_iff` says when the two agree: both return a line, and the parser
reads the same command with the same fields from both.  The arguments have to be
sound, and the ids must not interfere, as an id is written as it is and may hold a
comma or a NUL.  `textPairs_lineText_append` is the line as the parser cuts it,
`harmless_of_text` says that ids of plain text never interfere.  The parser gets
the line without its newline, as the receiver of a line takes it off.
-/
import FtServer.Conversions
import FtServer.Separators

namespace FtServer

open Decoder

/-! ### Commands -/

/-- A command with its arguments. -/
inductive Command (δ : Type)
  | homeSync (ra dec : δ)
  | slewto (coorsys : Int32) (coor1 coor2 : δ)
  | track (objid line1 line2 : Bytes)
  | park
  | abortSlew
  | focus (position : Int32)
  | slit (state command : Int32)

/-- The ids of a message. -/
structure Ids where
  gid : Bytes
  uid : Bytes
  cid : Bytes

namespace Command

variable {δ : Type}

def msgType : Command δ → MsgType
  | homeSync .. => .homeSync
  | slewto .. => .slewto
  | track .. => .track
  | park => .park
  | abortSlew => .abortSlew
  | focus .. => .focus
  | slit .. => .slit

/-- The call with the plain arguments. -/
def args : Command δ → CompactCall δ
  | homeSync ra dec => .homeSync ra dec
  | slewto coorsys coor1 coor2 => .slewto coorsys coor1 coor2
  | track objid line1 line2 => .track objid line1 line2
  | park => .park
  | abortSlew => .abortSlew
  | focus position => .focus position
  | slit state command => .slit state command

/-- The base class of the message; the constructor sets the type. -/
def base (ids : Ids) (c : Command δ) : AsciiProtoBase where
  type := c.msgType.name
  gid := ids.gid
  uid := ids.uid
  cid := ids.cid

/-- The message with these arguments. -/
def message (ids : Ids) (c : Command δ) : Apbase δ :=
  match c with
  | homeSync ra dec =>
    .homeSync { toAsciiProtoBase := c.base ids, ra := ra, dec := dec }
  | slewto coorsys coor1 coor2 =>
    .slewto { toAsciiProtoBase := c.base ids, coorsys := coorsys, coor1 := coor1, coor2 := coor2 }
  | track objid line1 line2 =>
    .track { toAsciiProtoBase := c.base ids, objid := objid, line1 := line1, line2 := line2 }
  | park => .park (c.base ids)
  | abortSlew => .abortSlew (c.base ids)
  | focus position => .focus { toAsciiProtoBase := c.base ids, value := position }
  | slit state command =>
    .slit { toAsciiProtoBase := c.base ids, state := state, command := command }

/-- The call with the message. -/
def proto (ids : Ids) (c : Command δ) : CompactCall δ := .proto (some (c.message ids))

end Command

/-- The two lines are read as messages of one type with the same fields; those
of the base class aside. -/
def SameCommand {δ : Type} (dbl : DoubleLib δ) (line line' : Bytes) : Prop :=
  ∃ rcvd rcvd' m m', line = rcvd ++ [10] ∧ line' = rcvd' ++ [10] ∧
    resolve dbl rcvd = .ok (some m) ∧ resolve dbl rcvd' = .ok (some m') ∧
    m.msgType = m'.msgType ∧ ∀ b, m.setBase b = m'.setBase b

/-- **The two encoders agree**: both return `NULL`, or the parser reads the same
from their lines. -/
def EncodersAgree {δ : Type} (fmt : DoubleFmt δ) (now : Bytes) (ids : Ids) (c : Command δ) : Prop :=
  match (c.proto ids).line fmt now, c.args.line fmt now with
  | none, none => True
  | some line, some line' => SameCommand fmt.toDoubleLib line line'
  | _, _ => False

/-- What is printed for the `double` is read. -/
def DoubleFmt.Reads {δ : Type} (fmt : DoubleFmt δ) (x : δ) : Prop :=
  ∃ y, fmt.stod (fmt.format x) = .ok y

/-- The arguments pass the checks of the message, and the numbers are read. -/
def Command.Sound {δ : Type} (fmt : DoubleFmt δ) : Command δ → Prop
  | homeSync ra dec =>
    (validRa fmt ra = true ∧ validDec fmt dec = true) ∧ fmt.Reads ra ∧ fmt.Reads dec
  | slewto _ coor1 coor2 => fmt.Reads coor1 ∧ fmt.Reads coor2
  | focus position => position ≠ Int32.minValue
  | _ => True

/-! ### The common items -/

/-- The pairs as they stand in a line. -/
def lineText (kvs : List (String × Bytes)) : Bytes :=
  cstr ((fieldsText kvs).rdropWhile trimmedByte)

/-- The pairs of a type among those that the parser finds in the text of `own`. -/
def ownPairs (own : List (String × Bytes)) : List PairKeyVal :=
  (textPairs (lineText own)).filter specific

/-- The text of pairs in front of `own`, with its end trimmed if nothing follows. -/
def frontText (front own : List (String × Bytes)) : Bytes :=
  if own = [] then (fieldsText front).rdropWhile trimmedByte else fieldsText front

/-- The pairs of a type that stand in this text, as an id may hold a comma. -/
def strayPairs (front own : List (String × Bytes)) : List PairKeyVal :=
  (textPairs (cstr (frontText front own))).filter specific

/-- The pairs in front do not interfere with the fields of the type: the pairs of
the type that stand in them convert, and a field that `own` does not write keeps
its initial value; if a NUL in front ends the line, each field has the value that
`own` writes. -/
structure Harmless {δ : Type} (dbl : DoubleLib δ) (t : MsgType)
    (front own : List (String × Bytes)) : Prop where
  converts : ∀ pair ∈ strayPairs front own, refuses ((schema dbl t).fields dbl) pair = false
  unwritten : 0 ∉ fieldsText front → ∀ c ∈ (schema dbl t).columns,
    (∀ pair ∈ ownPairs own, c.accepts pair = false) →
    (c.field dbl).value (strayPairs front own) (c.get (schema dbl t).init) =
      c.get (schema dbl t).init
  cut : 0 ∈ fieldsText front → ∀ c ∈ (schema dbl t).columns,
    (c.field dbl).value (strayPairs front own) (c.get (schema dbl t).init) =
      (c.field dbl).value (ownPairs own) (c.get (schema dbl t).init)

/-! ### Reading a command -/

section

variable {δ : Type} {dbl : DoubleLib δ}

/-- The parser decodes the pairs that are no common items. -/
theorem resolve_of_pairs {rcvd : Bytes} {t : MsgType} (ht : typeToken rcvd = t.name)
    (hconv : ∀ kv ∈ (linePairs rcvd).filter specific,
      refuses ((schema dbl t).fields dbl) kv = false) :
    ∃ p b, resolve dbl rcvd = .ok (some (((schema dbl t).apbase p).setBase b)) ∧
      ∀ c ∈ (schema dbl t).columns,
        c.get p = (c.field dbl).value ((linePairs rcvd).filter specific)
          (c.get (schema dbl t).init) := by
  obtain ⟨b, hb⟩ := decode_base_ok (linePairs rcvd)
  obtain ⟨p, hp, hvalues⟩ := exists_decode (schema_lawful dbl t)
    (fun kv _ => Column.separate (columns_wellKeyed t) kv) hconv (schema dbl t).init
  refine ⟨p, { b with type := typeToken rcvd }, ?_, fun c hc => ?_⟩
  · rw [resolve_eq, hb, ht, select_name, decodeSelected, hp]
    rfl
  · exact hvalues _ (List.mem_map_of_mem hc)

/-- If the parser returns, all of them convert. -/
theorem converts_of_resolve {rcvd : Bytes} {t : MsgType} {r : Option (Apbase δ)}
    (ht : typeToken rcvd = t.name) (h : resolve dbl rcvd = .ok r) :
    ∀ kv ∈ (linePairs rcvd).filter specific,
      refuses ((schema dbl t).fields dbl) kv = false := by
  obtain ⟨b, hb⟩ := decode_base_ok (linePairs rcvd)
  have hok := decodeSelected_ok_iff dbl ((linePairs rcvd).filter specific) (some t)
  simp only [Option.some.injEq, forall_eq'] at hok
  rw [← hok]
  rw [resolve_eq, hb, ht, select_name] at h
  rcases hd : decodeSelected dbl ((linePairs rcvd).filter specific) (some t) with e | r'
  · rw [hd] at h
    cases h
  · exact ⟨r', rfl⟩

/-- Lines of one type are read as the same command exactly if all their pairs
convert and each field gets the same value from both. -/
theorem sameCommand_iff {rcvd rcvd' : Bytes} {t : MsgType} {kvs kvs' : List PairKeyVal}
    (ht : typeToken rcvd = t.name) (ht' : typeToken rcvd' = t.name)
    (hkvs : (linePairs rcvd).filter specific = kvs)
    (hkvs' : (linePairs rcvd').filter specific = kvs') :
    SameCommand dbl (rcvd ++ [10]) (rcvd' ++ [10]) ↔
      (∀ kv ∈ kvs, refuses ((schema dbl t).fields dbl) kv = false) ∧
      (∀ kv ∈ kvs', refuses ((schema dbl t).fields dbl) kv = false) ∧
      ∀ c ∈ (schema dbl t).columns, (c.field dbl).value kvs (c.get (schema dbl t).init) =
        (c.field dbl).value kvs' (c.get (schema dbl t).init) := by
  subst hkvs hkvs'
  constructor
  · rintro ⟨s, s', m, m', hs, hs', hm, hm', -, hsame⟩
    obtain rfl := List.append_cancel_right hs
    obtain rfl := List.append_cancel_right hs'
    have hconv := converts_of_resolve ht hm
    have hconv' := converts_of_resolve ht' hm'
    obtain ⟨p, b, hp, hvalues⟩ := resolve_of_pairs ht hconv
    obtain ⟨p', b', hp', hvalues'⟩ := resolve_of_pairs ht' hconv'
    obtain rfl := Option.some.inj (Except.ok.inj (hm.symm.trans hp))
    obtain rfl := Option.some.inj (Except.ok.inj (hm'.symm.trans hp'))
    refine ⟨hconv, hconv', fun c hc => ?_⟩
    have hget := hsame b
    rw [Apbase.setBase_setBase, Apbase.setBase_setBase] at hget
    rw [← hvalues c hc, ← hvalues' c hc]
    exact get_eq_of_setBase_eq hget c hc
  · rintro ⟨hconv, hconv', hvalue⟩
    obtain ⟨p, b, hp, hvalues⟩ := resolve_of_pairs ht hconv
    obtain ⟨p', b', hp', hvalues'⟩ := resolve_of_pairs ht' hconv'
    refine ⟨rcvd, rcvd', _, _, rfl, rfl, hp, hp', ?_, fun x => ?_⟩
    · rw [msgType_setBase, msgType_setBase, msgType_apbase, msgType_apbase]
    · rw [Apbase.setBase_setBase, Apbase.setBase_setBase]
      apply schema_ext dbl
      intro c hc
      rw [hvalues c hc, hvalues' c hc, hvalue c hc]

/-- The keyword decides whether a pair is a common item. -/
theorem specific_eq {k : String} (hk : k ∈ keywords) (v : Bytes) :
    specific ⟨lit k, v⟩ = decide (k ∉ commonKeywords) := by
  have hall : ∀ k ∈ keywords, specific ⟨lit k, []⟩ = decide (k ∉ commonKeywords) := by
    decide +kernel
  exact hall k hk

theorem filter_specific_common {kvs : List (String × Bytes)}
    (h : ∀ kv ∈ kvs, kv.1 ∈ commonKeywords) :
    (kvs.filterMap readBack).filter specific = [] := by
  rw [List.filter_eq_nil_iff]
  intro pair hpair
  obtain ⟨kv, hkv, -, rfl⟩ := exists_of_mem_readBack hpair
  simp [specific_eq (commonKeywords_subset (h kv hkv)), h kv hkv]

/-- A pair that has lost its end keeps its keyword or is malformed. -/
theorem keyword_of_take_token {kv : String × Bytes} {s : Bytes} {pair : PairKeyVal}
    (hkey : KeyText kv.1) (hs : s <+: token kv) (h : pairOf s = some pair) :
    pair.keyword = lit kv.1 := by
  have hkey61 : ∀ b ∈ lit kv.1, decide (b ≠ 61) = true := fun b hb => by
    simpa using (hkey.1.1 b hb).2.1
  simp only [pairOf] at h
  split at h
  · cases h
  · rename_i hne
    obtain rfl := Option.some.inj h
    have hlit : lit kv.1 <+: token kv := List.prefix_append _ _
    rcases List.prefix_or_prefix_of_prefix hs hlit with hshort | ⟨w, rfl⟩
    · -- without `=` there is no value
      have hall : ∀ b ∈ s, decide (b ≠ 61) = true := fun b hb => hkey61 b (hshort.subset hb)
      refine absurd (Or.inr ?_) hne
      rw [List.dropWhile_eq_nil_iff.mpr hall]
      rfl
    · have hw : w <+: 61 :: kv.2 := (List.prefix_append_right_inj _).mp hs
      have hcut : w.takeWhile (fun b => decide (b ≠ 61)) = [] := by
        cases w with
        | nil => rfl
        | cons b w =>
          obtain rfl : b = 61 := (List.cons_prefix_cons.mp hw).1
          rfl
      show trim ((lit kv.1 ++ w).takeWhile fun b => decide (b ≠ 61)) = lit kv.1
      rw [List.takeWhile_append_of_pos hkey61, hcut, List.append_nil, hkey.1.2]

/-! ### The texts of the two calls -/

/-- Text in front of text that starts with a letter is not trimmed. -/
theorem rdropWhile_append {s t : Bytes} {b : UInt8} (hb : trimmedByte b = false) :
    (s ++ b :: t).rdropWhile trimmedByte = s ++ (b :: t).rdropWhile trimmedByte := by
  have hne : (b :: t).rdropWhile trimmedByte ≠ [] := by
    rw [Ne, List.rdropWhile_eq_nil_iff]
    intro h
    rw [h b List.mem_cons_self] at hb
    cases hb
  rw [List.rdropWhile, List.reverse_append, List.dropWhile_append, if_neg, List.reverse_append,
    List.reverse_reverse]
  · rfl
  · intro h
    rw [List.isEmpty_iff] at h
    exact hne (by rw [List.rdropWhile, h]; rfl)

theorem cstr_append {s t : Bytes} (hs : ∀ x ∈ s, x ≠ 0) : cstr (s ++ t) = s ++ cstr t := by
  have hzero : ∀ x ∈ s, decide (x ≠ 0) = true := fun x hx => by simpa using hs x hx
  rw [cstr, List.takeWhile_append_of_pos hzero, cstr]

theorem cstr_append_of_mem {s t : Bytes} (hs : 0 ∈ s) : cstr (s ++ t) = cstr s := by
  rw [cstr, List.takeWhile_append, if_neg, cstr]
  intro h
  have hall := List.takeWhile_eq_self_iff.mp ((List.takeWhile_prefix _).eq_of_length h) 0 hs
  simp at hall

/-- A keyword starts with a letter. -/
theorem exists_head_keyword {k : String} (hk : k ∈ keywords) :
    ∃ b key, lit k = b :: key ∧ trimmedByte b = false := by
  have hall : ∀ k ∈ keywords, trimmedByte ((lit k).headD 44) = false := by decide
  have hhead := hall k hk
  obtain ⟨b, key, hkey⟩ := List.exists_cons_of_ne_nil (keywords_text k hk).2.1
  rw [hkey] at hhead
  exact ⟨b, key, hkey, hhead⟩

theorem exists_head_fields {kvs : List (String × Bytes)} (hne : kvs ≠ [])
    (hkeys : ∀ kv ∈ kvs, kv.1 ∈ keywords) :
    ∃ b s, fieldsText kvs = b :: s ∧ trimmedByte b = false := by
  obtain ⟨kv, kvs, rfl⟩ := List.exists_cons_of_ne_nil hne
  obtain ⟨b, key, hkey, hb⟩ := exists_head_keyword (hkeys kv List.mem_cons_self)
  exact ⟨b, _, by simp [fieldsText, token, hkey]; rfl, hb⟩

/-- Pairs are trimmed at their end, whatever stands in front. -/
theorem cstr_rdropWhile_fields {s : Bytes} {kvs : List (String × Bytes)} (hs : ∀ x ∈ s, x ≠ 0)
    (hne : kvs ≠ []) (hkeys : ∀ kv ∈ kvs, kv.1 ∈ keywords) :
    cstr ((s ++ fieldsText kvs).rdropWhile trimmedByte) = s ++ lineText kvs := by
  obtain ⟨b, t, ht, hb⟩ := exists_head_fields hne hkeys
  rw [lineText, ht, rdropWhile_append hb, cstr_append hs]

/-- They do not start with a blank. -/
theorem head_lineText_ne {kvs : List (String × Bytes)} (hne : kvs ≠ [])
    (hkeys : ∀ kv ∈ kvs, kv.1 ∈ keywords) : (lineText kvs).head? ≠ some 32 := by
  obtain ⟨b, t, ht, hb⟩ := exists_head_fields hne hkeys
  have hpre : lineText kvs <+: b :: t := by
    rw [lineText, ht]
    exact (List.takeWhile_prefix _).trans (List.rdropWhile_prefix _ _)
  intro hhead
  obtain ⟨rest, hrest⟩ := List.head?_eq_some_iff.mp hhead
  rw [hrest] at hpre
  obtain rfl := (List.cons_prefix_cons.mp hpre).1
  exact absurd hb (by decide)

/-- A line of a type and what the parser cuts it into. -/
theorem line_pairs {t : MsgType} {kvs : List (String × Bytes)} (hne : kvs ≠ [])
    (hkeys : ∀ kv ∈ kvs, kv.1 ∈ keywords) :
    ∃ rcvd, cstr ((t.name ++ 32 :: fieldsText kvs).rdropWhile trimmedByte) = rcvd ∧
      typeToken rcvd = t.name ∧ linePairs rcvd = textPairs (lineText kvs) := by
  have hblank : ∀ b ∈ t.name, b ≠ 32 := fun b hb => (t.name_bytes b hb).1
  have hzero : ∀ b ∈ t.name ++ [32], b ≠ 0 := by
    intro b hb
    rcases List.mem_append.mp hb with hb | hb
    · exact (t.name_bytes b hb).2
    · obtain rfl := List.mem_singleton.mp hb
      decide
  have hline := cstr_rdropWhile_fields hzero hne hkeys
  rw [List.append_assoc, List.append_assoc] at hline
  refine ⟨t.name ++ 32 :: lineText kvs, hline, typeToken_line hblank _, ?_⟩
  rw [linePairs_eq, content_line hblank (head_lineText_ne hne hkeys)]

/-- What is left of `own` behind `front`: a NUL in front ends the line. -/
def keptPairs (front own : List (String × Bytes)) : List PairKeyVal :=
  if 0 ∈ fieldsText front then [] else ownPairs own

theorem mem_of_mem_keptPairs {front own : List (String × Bytes)} {pair : PairKeyVal}
    (h : pair ∈ keptPairs front own) : pair ∈ ownPairs own := by
  rw [keptPairs] at h
  split at h
  · cases h
  · exact h

/-- **The pairs in front and those behind**, as the parser finds them. -/
theorem textPairs_lineText_append {front own : List (String × Bytes)} (hne : front ≠ [])
    (hown : ∀ kv ∈ own, kv.1 ∈ keywords) :
    (textPairs (lineText (front ++ own))).filter specific =
      strayPairs front own ++ keptPairs front own := by
  rw [strayPairs, keptPairs, ownPairs, frontText]
  by_cases ho : own = []
  · have hnone : (textPairs (lineText [])).filter specific = [] := by decide
    rw [if_pos ho, ho, List.append_nil, lineText, hnone, ite_self, List.append_nil]
  · obtain ⟨b, t, ht, hb⟩ := exists_head_fields ho hown
    have htext : fieldsText (front ++ own) = fieldsText front ++ fieldsText own :=
      List.flatMap_append
    rw [if_neg ho, lineText, htext, ht, rdropWhile_append hb, ← ht]
    split
    · rw [cstr_append_of_mem ‹_›, List.append_nil]
    · -- the text in front ends with a comma
      have hzero : ∀ x ∈ fieldsText front, x ≠ 0 := fun x hx h => ‹0 ∉ fieldsText front› (h ▸ hx)
      obtain ⟨init, kv, rfl⟩ := (List.eq_nil_or_concat front).resolve_left hne
      have hcomma : fieldsText (init.concat kv) = (fieldsText init ++ token kv) ++ [44] := by
        simp [fieldsText]
      have hempty : textPairs [] = [] := by decide
      rw [cstr_append hzero, cstr_of_forall hzero, ← lineText, hcomma, List.append_assoc,
        List.singleton_append, textPairs_append, textPairs_append, hempty, List.append_nil,
        List.filter_append]

/-- A common item that is written last is no pair of the type, whatever is taken
off its end. -/
theorem textPairs_lineText_common {kv : String × Bytes}
    (hkey : kv.1 ∈ commonKeywords) (hvalue : FieldText kv.2) :
    (textPairs (lineText [kv])).filter specific = [] := by
  have htext := keywords_text kv.1 (commonKeywords_subset hkey)
  have hpre : lineText [kv] <+: token kv := by
    have hfields : fieldsText [kv] = token kv ++ [44] := by simp [fieldsText]
    rw [lineText, hfields, List.rdropWhile_concat_pos _ _ _ (by decide)]
    exact (List.takeWhile_prefix _).trans (List.rdropWhile_prefix _ _)
  have hcomma : (44 : UInt8) ∉ lineText [kv] := by
    intro hb
    rcases List.mem_append.mp (hpre.subset hb) with hb | hb
    · exact (htext.1.1 _ hb).1 rfl
    · rcases List.mem_cons.mp hb with hb | hb
      · exact absurd hb (by decide)
      · exact (hvalue.1 _ hb).1 rfl
  rw [textPairs, List.splitOn_eq_singleton hcomma, List.filter_eq_nil_iff]
  intro pair hpair
  obtain ⟨s, hs, hpair⟩ := List.mem_filterMap.mp hpair
  obtain rfl := List.mem_singleton.mp hs
  have hcommon := specific_eq (commonKeywords_subset hkey) pair.value
  rw [← keyword_of_take_token htext hpre hpair] at hcommon
  simp [hcommon, hkey]

variable {fmt : DoubleFmt δ} {now : Bytes}

theorem args_type (c : Command δ) : c.args.type = c.msgType.name := by
  cases c <;> rfl

theorem args_keywords (c : Command δ) : ∀ kv ∈ c.args.pairs fmt now, kv.1 ∈ keywords :=
  c.args.pairs_keywords

/-- The message writes the pairs of the base class and those of the arguments. -/
theorem proto_text (ids : Ids) (c : Command δ) :
    (c.proto ids).text fmt now =
      cstr ((c.msgType.name ++ 32 ::
        fieldsText (baseKvs now (c.base ids) ++ c.args.pairs fmt now)).rdropWhile trimmedByte) := by
  cases c <;> rfl

/-- The line of the plain arguments. -/
theorem args_reads (c : Command δ) :
    typeToken (c.args.text fmt now) = c.msgType.name ∧
      linePairs (c.args.text fmt now) = textPairs (lineText (c.args.pairs fmt now)) := by
  by_cases hne : c.args.pairs fmt now = []
  · have htext : c.args.text fmt now = c.msgType.name := by
      rw [CompactCall.text, hne, args_type]
      cases c <;> rfl
    rw [htext, hne]
    generalize c.msgType = t
    cases t <;> exact ⟨by decide, by decide⟩
  · obtain ⟨rcvd, htext, hreads⟩ := @line_pairs c.msgType _ hne (args_keywords c)
    have hcall : c.args.text fmt now = rcvd := by
      rw [CompactCall.text, args_type]
      exact htext
    rw [hcall]
    exact hreads

/-- The line of the message. -/
theorem proto_reads (ids : Ids) (c : Command δ) :
    typeToken ((c.proto ids).text fmt now) = c.msgType.name ∧
      (linePairs ((c.proto ids).text fmt now)).filter specific =
        strayPairs (baseKvs now (c.base ids)) (c.args.pairs fmt now) ++
          keptPairs (baseKvs now (c.base ids)) (c.args.pairs fmt now) := by
  have hkeys : ∀ kv ∈ baseKvs now (c.base ids) ++ c.args.pairs fmt now, kv.1 ∈ keywords := by
    intro kv hkv
    rcases List.mem_append.mp hkv with hkv | hkv
    · exact commonKeywords_subset (baseKvs_keys kv hkv)
    · exact args_keywords c kv hkv
  have hne : baseKvs now (c.base ids) ++ c.args.pairs fmt now ≠ [] := List.cons_ne_nil _ _
  obtain ⟨rcvd, htext, htype, hpairs⟩ := @line_pairs c.msgType _ hne hkeys
  rw [proto_text, htext, hpairs]
  exact ⟨htype, textPairs_lineText_append (List.cons_ne_nil _ _) (args_keywords c)⟩

/-- The pairs in front are harmless exactly if they convert and all pairs together
give each field the value that it has without them. -/
theorem harmless_iff {t : MsgType} {front own : List (String × Bytes)} :
    Harmless dbl t front own ↔
      (∀ pair ∈ strayPairs front own, refuses ((schema dbl t).fields dbl) pair = false) ∧
      ∀ c ∈ (schema dbl t).columns,
        (c.field dbl).value (strayPairs front own ++ keptPairs front own)
            (c.get (schema dbl t).init) =
          (c.field dbl).value (ownPairs own) (c.get (schema dbl t).init) := by
  by_cases h0 : 0 ∈ fieldsText front
  · have hkept : keptPairs front own = [] := if_pos h0
    rw [hkept, List.append_nil]
    constructor
    · intro h
      exact ⟨h.converts, h.cut h0⟩
    · rintro ⟨hconv, hvalues⟩
      exact ⟨hconv, fun hn => absurd h0 hn, fun _ => hvalues⟩
  · have hkept : keptPairs front own = ownPairs own := if_neg h0
    -- what `own` does not write has its initial value without `front`
    have hunwritten : ∀ c : Column δ (schema dbl t).α,
        (∀ pair ∈ ownPairs own, c.accepts pair = false) →
        (c.field dbl).value (ownPairs own) (c.get (schema dbl t).init) =
          c.get (schema dbl t).init := by
      intro c hc
      exact Field.value_append_of_not (f := c.field dbl) hc [] (c.get (schema dbl t).init)
    rw [hkept]
    constructor
    · intro h
      refine ⟨h.converts, fun c hc => ?_⟩
      by_cases hown : ∃ pair ∈ ownPairs own, c.accepts pair = true
      · exact Field.value_append_of_accepts (f := c.field dbl) hown _ _
      · have hnot : ∀ pair ∈ ownPairs own, c.accepts pair = false := by simpa using hown
        have happend := Field.value_append_of_not (f := c.field dbl) hnot
          (strayPairs front own) (c.get (schema dbl t).init)
        exact happend.trans ((h.unwritten h0 c hc hnot).trans (hunwritten c hnot).symm)
    · rintro ⟨hconv, hvalues⟩
      refine ⟨hconv, fun _ c hc hnot => ?_, fun h => absurd h h0⟩
      have happend := Field.value_append_of_not (f := c.field dbl) hnot
        (strayPairs front own) (c.get (schema dbl t).init)
      exact happend.symm.trans ((hvalues c hc).trans (hunwritten c hnot))

theorem ne_zero_of_mem_fields {kvs : List (String × Bytes)} (hkeys : ∀ kv ∈ kvs, KeyText kv.1)
    (hvalues : ∀ kv ∈ kvs, FieldText kv.2) : ∀ b ∈ fieldsText kvs, b ≠ 0 := by
  have hkeyZero : ∀ kv ∈ kvs, ∀ b ∈ lit kv.1, b ≠ 0 := fun kv hkv b hb =>
    ((hkeys kv hkv).1.1 b hb).2.2.2
  have hall := (@forall_mem_fields [] kvs hkeyZero).mpr
    ⟨by simp, fun kv hkv b hb => ((hvalues kv hkv).1 b hb).2.2.2⟩
  intro b hb
  exact hall b (List.mem_append_right [] (List.mem_cons_of_mem _ hb))

/-- Common items whose values are plain texts hold no pairs of the type. -/
theorem strayPairs_of_text {front own : List (String × Bytes)} (hne : front ≠ [])
    (hkeys : ∀ kv ∈ front, kv.1 ∈ commonKeywords) (hvalues : ∀ kv ∈ front, FieldText kv.2) :
    strayPairs front own = [] := by
  have htexts : ∀ kv ∈ front, KeyText kv.1 := fun kv hkv =>
    keywords_text kv.1 (commonKeywords_subset (hkeys kv hkv))
  have hzero := ne_zero_of_mem_fields htexts hvalues
  rw [strayPairs, frontText]
  split
  · -- the last common item is trimmed
    obtain ⟨init, kv, rfl⟩ := (List.eq_nil_or_concat front).resolve_left hne
    rw [List.concat_eq_append] at *
    have htext : fieldsText (init ++ [kv]) = fieldsText init ++ fieldsText [kv] :=
      List.flatMap_append
    have hcut := @cstr_rdropWhile_fields (fieldsText init) [kv]
      (fun b hb => hzero b (htext ▸ List.mem_append_left _ hb)) (by simp)
      (fun x hx => commonKeywords_subset (hkeys x (List.mem_append_right _ hx)))
    rw [htext, hcut, textPairs_fields (fun x hx => htexts x (List.mem_append_left _ hx))
      (fun x hx => hvalues x (List.mem_append_left _ hx)), List.filter_append,
      filter_specific_common fun x hx => hkeys x (List.mem_append_left _ hx),
      textPairs_lineText_common (hkeys kv (by simp)) (hvalues kv (by simp)), List.append_nil]
  · have hread := textPairs_fields htexts hvalues []
    rw [List.append_nil] at hread
    rw [cstr_of_forall hzero, hread, List.filter_append, filter_specific_common hkeys]
    decide

/-- **Plain texts are harmless.** -/
theorem harmless_of_text {t : MsgType} {front own : List (String × Bytes)} (hne : front ≠ [])
    (hkeys : ∀ kv ∈ front, kv.1 ∈ commonKeywords) (hvalues : ∀ kv ∈ front, FieldText kv.2) :
    Harmless dbl t front own := by
  have hzero := ne_zero_of_mem_fields
    (fun kv hkv => keywords_text kv.1 (commonKeywords_subset (hkeys kv hkv))) hvalues
  have hkept : keptPairs front own = ownPairs own := if_neg fun h => hzero 0 h rfl
  rw [harmless_iff, strayPairs_of_text hne hkeys hvalues, hkept]
  simp

/-! ### The values -/

/-- Pairs with values that fit into a line are read back. -/
theorem textPairs_lineText {kvs : List (String × Bytes)} {kv : String × Bytes}
    (hkeys : ∀ x ∈ kvs ++ [kv], x.1 ∈ keywords) (hvalues : ∀ x ∈ kvs ++ [kv], FieldText x.2)
    (hlast : EndsPlain kv.2) :
    textPairs (lineText (kvs ++ [kv])) = (kvs ++ [kv]).filterMap readBack := by
  have htexts : ∀ x ∈ kvs ++ [kv], KeyText x.1 := fun x hx => keywords_text x.1 (hkeys x hx)
  have hline : lineText (kvs ++ [kv]) = fieldsText kvs ++ token kv := by
    have hout := @outputCompacted_fields [] kvs kv (by simp) (fun x hx => (htexts x hx).1)
      hvalues hlast
    have hcut := @cstr_rdropWhile_fields [32] (kvs ++ [kv]) (by simp) (by simp) hkeys
    rw [outputCompacted, List.nil_append, List.nil_append] at hout
    have heq := hcut.symm.trans (List.append_cancel_right hout)
    exact (List.cons.inj heq).2
  rw [hline, textPairs_fields (fun x hx => htexts x (List.mem_append_left _ hx))
    (fun x hx => hvalues x (List.mem_append_left _ hx)),
    textPairs_token (htexts kv (by simp)) (hvalues kv (by simp)), List.filterMap_append]

/-- What holds of the pairs of the type, when all values are printed numbers. -/
theorem forall_own_iff {kvs : List (String × Bytes)} {P : PairKeyVal → Prop}
    (hkeys : ∀ x ∈ kvs, x.1 ∈ keywords ∧ specific ⟨lit x.1, x.2⟩ = true)
    (hvalues : ∀ x ∈ kvs, FieldText x.2 ∧ EndsPlain x.2) :
    (∀ pair ∈ (textPairs (lineText kvs)).filter specific, P pair) ↔
      ∀ x ∈ kvs, P ⟨lit x.1, x.2⟩ := by
  have hback : ∀ x ∈ kvs, readBack x = some ⟨lit x.1, x.2⟩ := by
    intro x hx
    obtain ⟨b, hb, -⟩ := (hvalues x hx).2
    have hne : x.2 ≠ [] := by
      intro h
      rw [h] at hb
      cases hb
    rw [readBack, if_neg hne]
  have hpairs : textPairs (lineText kvs) = kvs.filterMap readBack := by
    rcases List.eq_nil_or_concat kvs with rfl | ⟨init, kv, rfl⟩
    · decide
    · rw [List.concat_eq_append] at hkeys hvalues ⊢
      exact textPairs_lineText (fun x hx => (hkeys x hx).1) (fun x hx => (hvalues x hx).1)
        (hvalues kv (by simp)).2
  rw [hpairs]
  constructor
  · intro h x hx
    exact h _ (List.mem_filter.mpr ⟨List.mem_filterMap.mpr ⟨x, hx, hback x hx⟩, (hkeys x hx).2⟩)
  · intro h pair hpair
    obtain ⟨x, hx, hx'⟩ := List.mem_filterMap.mp (List.mem_of_mem_filter hpair)
    rw [hback x hx] at hx'
    exact Option.some.inj hx' ▸ h x hx

/-- An item whose value every column converts is not refused. -/
theorem not_refuses_of_conv {α : Type} {cs : List (Column δ α)} {pair : PairKeyVal}
    (h : ∀ c ∈ cs, ∃ y, c.kind.conv dbl pair.value = .ok y) :
    refuses (cs.map (Column.field dbl)) pair = false := by
  induction cs with
  | nil => rfl
  | cons c cs ih =>
    obtain ⟨y, hy⟩ := h c List.mem_cons_self
    rw [List.map_cons, refuses]
    split
    · simp [Column.field, hy]
    · exact ih fun d hd => h d (List.mem_cons_of_mem _ hd)

/-- The pair of a column is refused exactly when its value does not convert. -/
theorem refuses_column_iff {α : Type} {cs : List (Column δ α)}
    (h : WellKeyed (cs.map fun c => lit c.key)) {c : Column δ α} (hc : c ∈ cs) {v : Bytes} :
    refuses (cs.map (Column.field dbl)) ⟨lit c.key, v⟩ = false ↔
      ∃ y, c.kind.conv dbl v = .ok y := by
  induction cs with
  | nil => cases hc
  | cons d cs ih =>
    have hlower := h.lower (lit d.key) (by simp)
    have hc' : LowerCase (lit c.key) := h.lower _ (List.mem_map_of_mem hc)
    obtain ⟨hd, hnodup⟩ := List.nodup_cons.mp h.nodup
    rw [List.map_cons, refuses]
    by_cases hkey : lit c.key = lit d.key
    · have hacc : (d.field dbl).accepts ⟨lit c.key, v⟩ = true :=
        (Column.accepts_iff hlower hc').mpr hkey
      obtain rfl : c = d := by
        rcases List.mem_cons.mp hc with rfl | hmem
        · rfl
        · exact absurd (List.mem_map.mpr ⟨c, hmem, hkey⟩) hd
      rw [if_pos hacc]
      rcases hconv : c.kind.conv dbl v with e | y
      · simp [Column.field, hconv]
      · simp [Column.field, hconv]
    · have hacc : ¬ (d.field dbl).accepts ⟨lit c.key, v⟩ = true := fun hacc =>
        hkey ((Column.accepts_iff hlower hc').mp hacc)
      rw [if_neg hacc]
      refine ih ⟨fun k hk => h.lower k (List.mem_cons_of_mem _ hk), hnodup⟩ ?_
      rcases List.mem_cons.mp hc with rfl | hmem
      · exact absurd rfl hkey
      · exact hmem

theorem refuses_schema_iff {t : MsgType} {c : Column δ (schema dbl t).α}
    (hc : c ∈ (schema dbl t).columns) {v : Bytes} :
    refuses ((schema dbl t).fields dbl) ⟨lit c.key, v⟩ = false ↔
      ∃ y, c.kind.conv dbl v = .ok y :=
  refuses_column_iff (schema_keys dbl t ▸ t.keys_wellKeyed) hc

end

/-! ### When the encoders agree -/

section

variable {δ : Type} {fmt : DoubleFmt δ} {now : Bytes}

/-- The pairs of a command that has numbers only. -/
theorem args_values (hfmt : fmt.Plain) {c : Command δ} (hc : c.msgType ≠ .track) :
    ∀ x ∈ c.args.pairs fmt now, FieldText x.2 ∧ EndsPlain x.2 := by
  intro x hx
  have hint : ∀ n : Int32, FieldText (printInt n) ∧ EndsPlain (printInt n) := fun n =>
    ⟨fieldText_printInt n, endsPlain_printInt n⟩
  have hdouble : ∀ y : δ, FieldText (fmt.format y) ∧ EndsPlain (fmt.format y) := fun y =>
    ⟨hfmt.text y, hfmt.ends y⟩
  cases c with
  | track => exact absurd rfl hc
  | park | abortSlew => cases hx
  | slit state command =>
    simp only [Command.args, CompactCall.pairs, slitPairs, List.mem_append, List.mem_ite_nil_left,
      List.mem_singleton] at hx
    rcases hx with ⟨-, rfl⟩ | ⟨-, rfl⟩ <;> exact hint _
  | homeSync | slewto | focus =>
    simp only [Command.args, CompactCall.pairs, List.mem_cons, List.not_mem_nil, or_false] at hx
    rcases hx with rfl | rfl | rfl <;> first
      | exact hint _
      | exact hdouble _

/-- They are pairs of the type. -/
theorem args_specific {c : Command δ} :
    ∀ x ∈ c.args.pairs fmt now, x.1 ∈ keywords ∧ specific ⟨lit x.1, x.2⟩ = true := by
  intro x hx
  have hkey := args_keywords c x hx
  refine ⟨hkey, ?_⟩
  rw [specific_eq hkey, decide_eq_true_iff]
  cases c with
  | park | abortSlew => cases hx
  | slit state command =>
    simp only [Command.args, CompactCall.pairs, slitPairs, List.mem_append, List.mem_ite_nil_left,
      List.mem_singleton] at hx
    rcases hx with ⟨-, rfl⟩ | ⟨-, rfl⟩ <;> simp [commonKeywords]
  | homeSync | slewto | focus | track =>
    simp only [Command.args, CompactCall.pairs, List.mem_cons, List.not_mem_nil, or_false] at hx
    rcases hx with rfl | rfl | rfl <;> simp [commonKeywords]

/-- What is printed for an integer is no reason to refuse a pair. -/
theorem not_refuses_printInt {α : Type} {cs : List (Column δ α)} {dbl : DoubleLib δ}
    (hcs : ∀ c ∈ cs, c.kind = .int ∨ c.kind = .text) (k : Bytes) (n : Int32) :
    refuses (cs.map (Column.field dbl)) ⟨k, printInt n⟩ = false := by
  apply not_refuses_of_conv
  intro c hc
  rcases c with ⟨key, exact, kind, get, set⟩
  obtain rfl | rfl : kind = .int ∨ kind = .text := hcs _ hc
  · exact ⟨n, stoi_printInt n⟩
  · exact ⟨_, rfl⟩

/-- Which commands can be decoded from their own pairs. -/
theorem decodes_iff (hfmt : fmt.Plain) (c : Command δ) :
    (∀ pair ∈ (textPairs (lineText (c.args.pairs fmt now))).filter specific,
      refuses ((schema fmt.toDoubleLib c.msgType).fields fmt.toDoubleLib) pair = false) ↔
      match c with
      | .homeSync ra dec => fmt.Reads ra ∧ fmt.Reads dec
      | .slewto _ coor1 coor2 => fmt.Reads coor1 ∧ fmt.Reads coor2
      | _ => True := by
  cases c with
  | park | abortSlew => exact iff_of_true (fun _ _ => rfl) trivial
  | track objid line1 line2 =>
    -- texts are never refused
    refine iff_of_true (fun pair _ => not_refuses_of_conv fun c hc => ?_) trivial
    have hcs : ∀ c ∈ (trackColumns : List (Column δ AsciiProtoTrack)), c.kind = .text := by
      simp [trackColumns, Column.text]
    rcases c with ⟨key, exact, kind, get, set⟩
    obtain rfl : kind = .text := hcs _ hc
    exact ⟨_, rfl⟩
  | focus position =>
    refine iff_of_true ?_ trivial
    rw [forall_own_iff args_specific (args_values hfmt (by simp [Command.msgType]))]
    intro x hx
    obtain rfl := List.mem_singleton.mp hx
    have hcs : ∀ c ∈ (focusColumns : List (Column δ AsciiProtoFocus)),
        c.kind = .int ∨ c.kind = .text := by
      simp [focusColumns, Column.int]
    exact not_refuses_printInt hcs _ _
  | slit state command =>
    refine iff_of_true ?_ trivial
    rw [forall_own_iff args_specific (args_values hfmt (by simp [Command.msgType]))]
    intro x hx
    simp only [Command.args, CompactCall.pairs, slitPairs, List.mem_append, List.mem_ite_nil_left,
      List.mem_singleton] at hx
    have hcs : ∀ c ∈ (slitColumns : List (Column δ AsciiProtoSlit)),
        c.kind = .int ∨ c.kind = .text := by
      simp [slitColumns, Column.int]
    rcases hx with ⟨-, rfl⟩ | ⟨-, rfl⟩ <;> exact not_refuses_printInt hcs _ _
  | homeSync ra dec =>
    rw [forall_own_iff args_specific (args_values hfmt (by simp [Command.msgType]))]
    have hra := @refuses_schema_iff δ fmt.toDoubleLib .homeSync
      (.double "ra" (·.ra) fun x p => { p with ra := x }) List.mem_cons_self (fmt.format ra)
    have hdec := @refuses_schema_iff δ fmt.toDoubleLib .homeSync
      (.double "dec" (·.dec) fun x p => { p with dec := x })
      (List.mem_cons_of_mem _ List.mem_cons_self) (fmt.format dec)
    simp only [Command.args, CompactCall.pairs, List.forall_mem_cons, List.not_mem_nil,
      false_implies, implies_true, and_true]
    exact and_congr hra hdec
  | slewto coorsys coor1 coor2 =>
    rw [forall_own_iff args_specific (args_values hfmt (by simp [Command.msgType]))]
    have hcoorsys := @refuses_schema_iff δ fmt.toDoubleLib .slewto
      (.int "coorsys" (·.coorsys) fun x p => { p with coorsys := x }) List.mem_cons_self
      (printInt coorsys)
    have hcoor1 := @refuses_schema_iff δ fmt.toDoubleLib .slewto
      (.double "coor1" (·.coor1) fun x p => { p with coor1 := x })
      (List.mem_cons_of_mem _ List.mem_cons_self) (fmt.format coor1)
    have hcoor2 := @refuses_schema_iff δ fmt.toDoubleLib .slewto
      (.double "coor2" (·.coor2) fun x p => { p with coor2 := x })
      (List.mem_cons_of_mem _ (List.mem_cons_of_mem _ List.mem_cons_self)) (fmt.format coor2)
    simp only [Command.args, CompactCall.pairs, List.forall_mem_cons, List.not_mem_nil,
      false_implies, implies_true, and_true]
    refine (and_iff_right (hcoorsys.mpr ⟨coorsys, stoi_printInt coorsys⟩)).trans ?_
    exact and_congr hcoor1 hcoor2

/-- The checks of the message. -/
theorem proto_refused (ids : Ids) (c : Command δ) :
    (c.proto ids).refused fmt = false ↔
      match c with
      | .homeSync ra dec => validRa fmt ra = true ∧ validDec fmt dec = true
      | .focus position => position ≠ Int32.minValue
      | _ => True := by
  cases c with
  | homeSync ra dec =>
    simp [Command.proto, Command.message, CompactCall.refused, Apbase.refused]
  | focus position =>
    simp [Command.proto, Command.message, CompactCall.refused, Apbase.refused]
  | _ => exact iff_of_true rfl trivial

/-- **When the two encoders of a command agree**: the arguments are sound, and the
ids do not interfere. -/
theorem encodersAgree_iff (hfmt : fmt.Plain) (ids : Ids) (c : Command δ) :
    EncodersAgree fmt now ids c ↔ c.Sound fmt ∧
      Harmless fmt.toDoubleLib c.msgType (baseKvs now (c.base ids)) (c.args.pairs fmt now) := by
  have hargs : c.args.refused fmt = false := by
    cases c <;> rfl
  have hsound : c.Sound fmt ↔ (c.proto ids).refused fmt = false ∧
      ∀ pair ∈ ownPairs (c.args.pairs fmt now),
        refuses ((schema fmt.toDoubleLib c.msgType).fields fmt.toDoubleLib) pair = false := by
    rw [proto_refused, ownPairs, decodes_iff hfmt]
    cases c <;> simp [Command.Sound]
  rw [hsound, EncodersAgree, CompactCall.line_eq, CompactCall.line_eq, hargs]
  cases hproto : (c.proto ids).refused fmt with
  | true => simp
  | false =>
    obtain ⟨htype, hpairs⟩ := @args_reads δ fmt now c
    obtain ⟨htype', hpairs'⟩ := @proto_reads δ fmt now ids c
    have hiff := @sameCommand_iff δ fmt.toDoubleLib _ _ c.msgType _ _ htype' htype hpairs'
      (congrArg (List.filter specific) hpairs)
    show SameCommand _ _ _ ↔ _
    rw [hiff, ← ownPairs, harmless_iff]
    constructor
    · rintro ⟨hconv, hown, hvalues⟩
      exact ⟨⟨rfl, hown⟩, fun pair hpair => hconv pair (List.mem_append_left _ hpair), hvalues⟩
    · rintro ⟨⟨-, hown⟩, hstray, hvalues⟩
      refine ⟨fun pair hpair => ?_, hown, hvalues⟩
      rcases List.mem_append.mp hpair with hpair | hpair
      · exact hstray pair hpair
      · exact hown pair (mem_of_mem_keptPairs hpair)

end

def noIds : Ids := ⟨[], [], []⟩

theorem encodersAgree_homeSync :
    EncodersAgree intFmt (lit "2019-09-23T12:00:00") noIds (.homeSync 10 20) :=
  (encodersAgree_iff ⟨fieldText_printInt, endsPlain_printInt⟩ noIds _).mpr
    ⟨⟨⟨by decide, by decide⟩, ⟨10, stoi_printInt 10⟩, 20, stoi_printInt 20⟩,
      harmless_of_text (List.cons_ne_nil _ _) baseKvs_keys
        (baseKvs_values (by decide +kernel) (by decide +kernel))⟩

/-- The position that stands for none is sent by one encoder and refused by the
other. -/
theorem not_encodersAgree_focus :
    ¬ ∀ (fmt : DoubleFmt Int32) (now : Bytes) (ids : Ids) (c : Command Int32),
      fmt.Plain → FieldText now → EncodersAgree fmt now ids c := by
  intro h
  have hfocus := h intFmt (lit "2019-09-23T12:00:00") noIds (.focus Int32.minValue)
    ⟨fieldText_printInt, endsPlain_printInt⟩ (by decide +kernel)
  rw [EncodersAgree, CompactCall.line_eq, CompactCall.line_eq] at hfocus
  exact hfocus

end FtServer
