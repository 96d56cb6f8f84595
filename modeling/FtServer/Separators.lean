/-
FtServer/Separators.lean

What `output_compacted` takes off.  Each pair is written with a comma behind it,
so the last comma has to go; the code trims the whole line on the right by
character class instead, and prints it as a C string.

`joinedLine` is the line with the commas between the pairs only.
`line_eq_joined_iff` says for which calls the encoders return it.
-/
import FtServer.Calls

namespace FtServer

/-- The type, a blank, the pairs with commas between them, and a newline. -/
def joinedLine (type : Bytes) (kvs : List (String × Bytes)) : Bytes :=
  if kvs.isEmpty then type ++ [10]
  else type ++ 32 :: [44].intercalate (kvs.map token) ++ [10]

/-! ### The trimming -/

/-- The bytes that `output_compacted` takes off the end. -/
def trimmedByte (b : UInt8) : Bool := isPunct b || isSpace b

/-- Text that keeps all its bytes. -/
theorem cstr_rdropWhile_eq_iff {s : Bytes} :
    cstr (s.rdropWhile trimmedByte) = s ↔
      (∀ b ∈ s, b ≠ 0) ∧ s.rdropWhile trimmedByte = s := by
  constructor
  · intro h
    have hpre : s.rdropWhile trimmedByte <+: s := List.rdropWhile_prefix _ _
    have hle : (cstr (s.rdropWhile trimmedByte)).length ≤ (s.rdropWhile trimmedByte).length :=
      (List.takeWhile_prefix _).length_le
    rw [h] at hle
    have heq : s.rdropWhile trimmedByte = s := hpre.eq_of_length_le hle
    rw [heq] at h
    refine ⟨fun b hb => ?_, heq⟩
    simpa using List.takeWhile_eq_self_iff.mp h b hb
  · rintro ⟨hzero, heq⟩
    rw [heq, cstr_of_forall hzero]

/-- Whether something is taken off is decided by the last byte. -/
theorem rdropWhile_concat_eq_self_iff {s : Bytes} {b : UInt8} :
    (s ++ [b]).rdropWhile trimmedByte = s ++ [b] ↔ trimmedByte b = false := by
  rw [List.rdropWhile_eq_self_iff]
  simp

/-- Behind `=` stands the value, or nothing. -/
theorem rdropWhile_value_eq_self_iff {s v : Bytes} :
    (s ++ 61 :: v).rdropWhile trimmedByte = s ++ 61 :: v ↔ EndsPlain v := by
  rcases List.eq_nil_or_concat v with rfl | ⟨v', b, rfl⟩
  · rw [rdropWhile_concat_eq_self_iff]
    apply iff_of_false (by decide)
    rintro ⟨b, hb, -⟩
    cases hb
  · rw [List.concat_eq_append, ← List.cons_append, ← List.append_assoc,
      rdropWhile_concat_eq_self_iff, trimmedByte, Bool.or_eq_false_iff]
    constructor
    · rintro ⟨hp, hs⟩
      exact ⟨b, by simp, hp, hs⟩
    · rintro ⟨b', hb', hp, hs⟩
      rw [List.getLast?_concat, Option.some.injEq] at hb'
      exact hb' ▸ ⟨hp, hs⟩

/-- The text of a type and pairs has no NUL when the type and the values have none. -/
theorem forall_mem_fields {type : Bytes} {kvs : List (String × Bytes)}
    (hkeys : ∀ kv ∈ kvs, ∀ b ∈ lit kv.1, b ≠ 0) :
    (∀ b ∈ type ++ 32 :: fieldsText kvs, b ≠ 0) ↔
      (∀ b ∈ type, b ≠ 0) ∧ ∀ kv ∈ kvs, ∀ b ∈ kv.2, b ≠ 0 := by
  constructor
  · intro h
    refine ⟨fun b hb => h b (List.mem_append_left _ hb), fun kv hkv b hb => h b ?_⟩
    refine List.mem_append_right _ (List.mem_cons_of_mem _ (List.mem_flatMap.mpr ⟨kv, hkv, ?_⟩))
    simp [token, hb]
  · rintro ⟨htype, hvalues⟩ b hb
    rcases List.mem_append.mp hb with hb | hb
    · exact htype b hb
    · rcases List.mem_cons.mp hb with rfl | hb
      · decide
      · obtain ⟨kv, hkv, hb⟩ := List.mem_flatMap.mp hb
        simp only [token, List.mem_append, List.mem_cons, List.not_mem_nil, or_false] at hb
        rcases hb with (hb | rfl | hb) | rfl
        · exact hkeys kv hkv b hb
        · decide
        · exact hvalues kv hkv b hb
        · decide

/-- **When `output_compacted` takes off its own separator only.** -/
theorem outputCompacted_eq_joined_iff {type : Bytes} {kvs : List (String × Bytes)}
    (hkeys : ∀ kv ∈ kvs, ∀ b ∈ lit kv.1, b ≠ 0) (htype : kvs = [] → EndsPlain type) :
    outputCompacted (type ++ 32 :: fieldsText kvs) = joinedLine type kvs ↔
      (∀ b ∈ type, b ≠ 0) ∧ (∀ kv ∈ kvs, ∀ b ∈ kv.2, b ≠ 0) ∧
        ∀ kv, kvs.getLast? = some kv → EndsPlain kv.2 := by
  rcases List.eq_nil_or_concat kvs with rfl | ⟨init, kv, rfl⟩
  · -- the blank is taken off as well
    have htrim : (type ++ [32]).rdropWhile trimmedByte = type := by
      rw [List.rdropWhile_concat_pos _ _ _ (by decide)]
      exact @rdropWhile_of_endsPlain [] type (htype rfl)
    have hline : outputCompacted (type ++ 32 :: fieldsText []) = cstr type ++ [10] :=
      congrArg (fun s => cstr s ++ [10]) htrim
    rw [hline, joinedLine, List.isEmpty_nil, if_pos rfl, List.append_left_inj, cstr,
      List.takeWhile_eq_self_iff]
    simp
  · rw [List.concat_eq_append] at hkeys ⊢
    have htext : type ++ 32 :: fieldsText (init ++ [kv]) =
        (type ++ 32 :: (fieldsText init ++ token kv)) ++ [44] := by
      simp [fieldsText]
    have hvalue : type ++ 32 :: (fieldsText init ++ token kv) =
        (type ++ 32 :: (fieldsText init ++ lit kv.1)) ++ 61 :: kv.2 := by
      simp [token]
    have hline : outputCompacted (type ++ 32 :: fieldsText (init ++ [kv])) =
        cstr ((type ++ 32 :: (fieldsText init ++ token kv)).rdropWhile trimmedByte) ++ [10] := by
      rw [outputCompacted, htext, List.rdropWhile_concat_pos _ _ _ (by decide)]
      rfl
    have hjoined : joinedLine type (init ++ [kv]) =
        type ++ 32 :: (fieldsText init ++ token kv) ++ [10] := by
      rw [joinedLine, if_neg (by simp), List.map_append, List.map_singleton, intercalate_concat,
        List.flatMap_map, fieldsText]
    have hzero : (∀ b ∈ type ++ 32 :: (fieldsText init ++ token kv), b ≠ 0) ↔
        (∀ b ∈ type, b ≠ 0) ∧ ∀ x ∈ init ++ [kv], ∀ b ∈ x.2, b ≠ 0 := by
      rw [← forall_mem_fields hkeys, htext]
      constructor
      · intro h b hb
        rcases List.mem_append.mp hb with hb | hb
        · exact h b hb
        · rw [List.mem_singleton.mp hb]
          decide
      · intro h b hb
        exact h b (List.mem_append_left _ hb)
    rw [hline, hjoined, List.append_left_inj, cstr_rdropWhile_eq_iff, hzero, hvalue,
      rdropWhile_value_eq_self_iff, List.getLast?_concat, and_assoc]
    simp

/-! ### The keywords -/

/-- The keywords of the common items. -/
def commonKeywords : List String := ["utc", "gid", "uid", "cid"]

/-- Every keyword that an encoder writes. -/
def keywords : List String :=
  ["utc", "gid", "uid", "cid", "sitename", "longitude", "latitude", "altitude", "timezone", "ra",
    "dec", "coorsys", "coor1", "coor2", "objid", "line1", "line2", "state", "errcode", "azi", "alt",
    "value", "command", "objname", "imgtype", "expdur", "frmcnt", "plan_type", "plan_sn", "btime",
    "etime", "sabbr", "iimgtyp", "coolget", "tmobs", "subpath", "filename", "filesize", "status"]

theorem keywords_text : ∀ k ∈ keywords, KeyText k := by decide +kernel

variable {δ : Type} {fmt : DoubleFmt δ} {now : Bytes}

/-- The pairs of the base class are common items. -/
theorem baseKvs_keys {base : AsciiProtoBase} :
    ∀ kv ∈ baseKvs now base, kv.1 ∈ commonKeywords := by
  intro kv hkv
  simp only [baseKvs, List.mem_cons, List.mem_filter, List.not_mem_nil, or_false] at hkv
  rcases hkv with rfl | ⟨rfl | rfl | rfl, -⟩ <;> simp [commonKeywords]

theorem commonKeywords_subset : commonKeywords ⊆ keywords := by decide

theorem written_keywords {m : Apbase δ} {x : String × Cell δ} (h : x ∈ m.written) :
    x.1 ∈ keywords := by
  have hall : ∀ t : MsgType, ∀ k ∈ t.written, k ∈ keywords := by
    intro t
    cases t <;> decide
  exact hall m.msgType x.1 (written_keys m ▸ List.mem_map_of_mem h)

theorem slitPairs_keywords {state command : Int32} :
    ∀ kv ∈ slitPairs state command, kv.1 ∈ keywords := by
  intro kv hkv
  simp only [slitPairs, List.mem_append, List.mem_ite_nil_left, List.mem_singleton] at hkv
  rcases hkv with ⟨-, rfl⟩ | ⟨-, rfl⟩ <;> simp [keywords]

theorem fields_keywords (m : Apbase δ) : ∀ kv ∈ m.fields fmt, kv.1 ∈ keywords := by
  intro kv hkv
  cases m with
  | track p =>
    simp only [Apbase.fields, List.mem_cons, List.not_mem_nil, or_false] at hkv
    rcases hkv with rfl | rfl | rfl <;> simp [keywords]
  | slit p => exact slitPairs_keywords kv hkv
  | _ =>
    obtain ⟨x, hx, rfl⟩ := List.mem_map.mp hkv
    exact written_keywords hx

namespace CompactCall

theorem pairs_keywords (c : CompactCall δ) : ∀ kv ∈ c.pairs fmt now, kv.1 ∈ keywords := by
  intro kv hkv
  cases c with
  | proto p =>
    cases p with
    | none => cases hkv
    | some m =>
      rcases List.mem_append.mp hkv with hkv | hkv
      · exact commonKeywords_subset (baseKvs_keys kv hkv)
      · exact fields_keywords m kv hkv
  | slit state command => exact slitPairs_keywords kv hkv
  | park | abortSlew => cases hkv
  | focus | rain | expose =>
    rw [List.mem_singleton.mp hkv]
    simp [keywords]
  | homeSync | slewto | track =>
    simp only [pairs, List.mem_cons, List.not_mem_nil, or_false] at hkv
    rcases hkv with rfl | rfl | rfl <;> simp [keywords]

/-! ### The lines -/

/-- The type and the values have no NUL, and the last value ends neither in
punctuation nor in white space. -/
structure KeepsText (fmt : DoubleFmt δ) (now : Bytes) (c : CompactCall δ) : Prop where
  type : ∀ b ∈ c.type, b ≠ 0
  values : ∀ kv ∈ c.pairs fmt now, ∀ b ∈ kv.2, b ≠ 0
  last : ∀ kv, (c.pairs fmt now).getLast? = some kv → EndsPlain kv.2

/-- Without pairs the type is one of the code's own. -/
theorem type_endsPlain {c : CompactCall δ} (hc : c.refused fmt = false)
    (h : c.pairs fmt now = []) : EndsPlain c.type := by
  cases c with
  | proto p =>
    cases p with
    | none => cases hc
    | some m => cases h
  | slit | park | abortSlew => exact ⟨_, rfl, by decide, by decide⟩
  | homeSync | slewto | track | focus | rain | expose => cases h

/-- **When a line is its pairs joined by commas.** -/
theorem line_eq_joined_iff {c : CompactCall δ} {line : Bytes} (h : c.line fmt now = some line) :
    line = joinedLine c.type (c.pairs fmt now) ↔ c.KeepsText fmt now := by
  rw [line_eq] at h
  by_cases hc : c.refused fmt = true
  · rw [if_pos hc] at h
    cases h
  · rw [if_neg hc] at h
    rw [Bool.not_eq_true] at hc
    obtain rfl := Option.some.inj h
    have hkeys : ∀ kv ∈ c.pairs fmt now, ∀ b ∈ lit kv.1, b ≠ 0 := fun kv hkv b hb =>
      ((keywords_text kv.1 (c.pairs_keywords kv hkv)).1.1 b hb).2.2.2
    have hiff := outputCompacted_eq_joined_iff hkeys (type_endsPlain hc)
    exact hiff.trans ⟨fun ⟨ht, hv, hl⟩ => ⟨ht, hv, hl⟩, fun ⟨ht, hv, hl⟩ => ⟨ht, hv, hl⟩⟩

/-- A value that ends in a letter is sent unchanged. -/
theorem line_eq_joined_track :
    Args.compactTrack (lit "25544") (lit "1 25544U") (lit "2 25544") =
      joinedLine (lit "track")
        [("objid", lit "25544"), ("line1", lit "1 25544U"), ("line2", lit "2 25544")] := by
  have hkeeps : KeepsText intFmt [] (.track (lit "25544") (lit "1 25544U") (lit "2 25544")) := by
    refine ⟨?_, ?_, ?_⟩
    · rintro b hb rfl
      exact absurd hb (by decide)
    · rintro kv hkv b hb rfl
      simp only [pairs, List.mem_cons, List.not_mem_nil, or_false] at hkv
      rcases hkv with rfl | rfl | rfl <;> exact absurd hb (by decide)
    · intro kv hkv
      obtain rfl := Option.some.inj hkv
      exact ⟨_, rfl, by decide, by decide⟩
  exact (line_eq_joined_iff rfl).mpr hkeeps

/-- A rain value loses its last character. -/
theorem line_ne_joined_rain :
    ¬ ∀ (fmt : DoubleFmt Int32) (now : Bytes) (c : CompactCall Int32) (line : Bytes),
      c.line fmt now = some line → line = joinedLine c.type (c.pairs fmt now) := by
  intro h
  exact absurd (h intFmt [] (.rain (lit "light.")) _ rfl) (by decide)

end CompactCall

end FtServer
