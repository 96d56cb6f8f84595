/-
FtServer/DBCurl.lean

The registration of saved files in the database.  `RegImageFile` gives the name of a
file and its directory to `curl_upload`, which puts the two together again and attaches
the file of that path to its request; libcurl reads it when the request is sent.

The directory is the `parent_path()` of the file, so a name with a directory of its own
gets this directory twice (`place_attachedPath`): the file that is attached is the file
that has been saved exactly if the name has no directory part (`attached_iff`).

`registrations_of_run` is about runs of the server: `RegImageFile` is called once for
every save with a database, in the order of the saves, each call that libcurl gives a
handle sends one request, and what it attaches are the bytes that the device has taken
of this file, as long as the names are plain.
-/
import FtServer.Numerals
import FtServer.StoredFiles
import FtServer.UploadPaths

namespace FtServer

open FsPath Lexical

/-! ### Requests -/

/-- `mmapstr`: pairs sorted by their keys, those of one key as they were inserted. -/
abbrev Mmapstr := List (Bytes × Bytes)

/-- `insert`, behind the pairs whose key is not greater. -/
def mmapInsert : Mmapstr → Bytes × Bytes → Mmapstr
  | [], kv => [kv]
  | x :: rest, kv => if kv.1 < x.1 then kv :: x :: rest else x :: mmapInsert rest kv

/-- A part of a form: a text, or a file by its path. -/
inductive FormPart
  | contents (name value : Bytes)
  | file (name path : Bytes)
  deriving DecidableEq

structure Post where
  url : Bytes
  parts : List FormPart
  deriving DecidableEq

/-- Answers of libcurl: is there a handle, and the codes of the transfer and of the
question for the status. -/
structure CurlAnswers where
  handle : Bool
  perform : ℤ
  getinfo : ℤ

/-- The interface of the database; the root of its addresses ends in a separator. -/
structure DBCurl where
  urlRoot : Bytes
  urlRoot_back : urlRoot.getLast? = some 47

namespace DBCurl

/-- The constructor; `back()` of the empty string is undefined. -/
def create (urlRoot : Bytes) : Option DBCurl :=
  if urlRoot = [] then none
  else if h : urlRoot.getLast? = some 47 then some ⟨urlRoot, h⟩
  else some ⟨urlRoot ++ [47], List.getLast?_concat⟩

def urlRegImage (d : DBCurl) : Bytes := d.urlRoot ++ lit "regOrigImg.action"

/-- `curl_upload`: the result and the request. -/
def curlUpload (ans : CurlAnswers) (url : Bytes) (kvs file : Mmapstr) (pathdir : Bytes) :
    Option (ℤ × Option Post) :=
  if kvs.isEmpty && file.isEmpty then some (-1, none)
  else if !ans.handle then some (-2, none)
  else
    pathdir.getLast?.map fun back =>
      let subpath := if back ≠ 47 then pathdir ++ [47] else pathdir
      (if ans.perform = 0 then ans.getinfo else ans.perform,
        some ⟨url, (kvs.map fun kv => .contents kv.1 kv.2) ++
          file.map fun kv => .file kv.1 (subpath ++ kv.2)⟩)

def regImageFile (d : DBCurl) (ans : CurlAnswers) (cid filename filepath tmobs : Bytes)
    (microsec : Int32) : Option (ℤ × Option Post) :=
  let kvs := mmapInsert (mmapInsert (mmapInsert (mmapInsert (mmapInsert []
    (lit "camId", cid)) (lit "imgName", filename)) (lit "imgPath", filepath))
    (lit "genTime", tmobs)) (lit "microSecond", printInt microsec)
  curlUpload ans d.urlRegImage kvs (mmapInsert [] (lit "fileUpload", filename)) filepath

end DBCurl

example : (DBCurl.create (lit "http://db")).map DBCurl.urlRegImage =
    some (lit "http://db/regOrigImg.action") := by decide

/-- The path of the file that `RegImageFile` attaches for a file saved at `dir / filename`. -/
def attachedPath (v : FsVersion) (dir filename : Bytes) : Bytes :=
  parentPath (append v dir filename) ++ separatorFor (parentPath (append v dir filename)) ++
    filename

/-- The request for a saved file, the texts in the order of their keys. -/
def regImagePost (d : DBCurl) (v : FsVersion) (dir cid filename tmobs : Bytes)
    (microsec : Int32) : Post where
  url := d.urlRegImage
  parts := [.contents (lit "camId") cid, .contents (lit "genTime") tmobs,
    .contents (lit "imgName") filename,
    .contents (lit "imgPath") (parentPath (append v dir filename)),
    .contents (lit "microSecond") (printInt microsec),
    .file (lit "fileUpload") (attachedPath v dir filename)]

theorem separatorFor_of_ne {p : Bytes} (h : p ≠ []) :
    p ++ separatorFor p = if p.getLast h ≠ 47 then p ++ [47] else p := by
  have hlast := List.getLast?_eq_some_getLast h
  by_cases hsep : p.getLast h = 47
  · simp [separatorFor, hlast, hsep]
  · simp [separatorFor, hlast, hsep, h]

theorem DBCurl.regImageFile_eq (d : DBCurl) {ans : CurlAnswers} (hans : ans.handle = true)
    {v : FsVersion} {dir filename : Bytes} (hdir : parentPath (append v dir filename) ≠ [])
    (cid tmobs : Bytes) (microsec : Int32) :
    d.regImageFile ans cid filename (parentPath (append v dir filename)) tmobs microsec =
      some (if ans.perform = 0 then ans.getinfo else ans.perform,
        some (regImagePost d v dir cid filename tmobs microsec)) := by
  have hkvs : mmapInsert (mmapInsert (mmapInsert (mmapInsert (mmapInsert []
      (lit "camId", cid)) (lit "imgName", filename))
      (lit "imgPath", parentPath (append v dir filename))) (lit "genTime", tmobs))
      (lit "microSecond", printInt microsec) =
      [(lit "camId", cid), (lit "genTime", tmobs), (lit "imgName", filename),
        (lit "imgPath", parentPath (append v dir filename)),
        (lit "microSecond", printInt microsec)] := by
    have h₁ : ¬ lit "imgName" < lit "camId" := by decide
    have h₂ : ¬ lit "imgPath" < lit "camId" := by decide
    have h₃ : ¬ lit "imgPath" < lit "imgName" := by decide
    have h₄ : ¬ lit "genTime" < lit "camId" := by decide
    have h₅ : lit "genTime" < lit "imgName" := by decide
    have h₆ : ∀ key ∈ [lit "camId", lit "genTime", lit "imgName", lit "imgPath"],
        ¬ lit "microSecond" < key := by decide
    simp only [List.forall_mem_cons] at h₆
    simp only [mmapInsert, h₁, h₂, h₃, h₄, h₅, h₆.1, h₆.2.1, h₆.2.2.1, h₆.2.2.2.1, if_true,
      if_false]
  rw [regImageFile, hkvs, curlUpload, List.getLast?_eq_some_getLast hdir]
  simp [hans, regImagePost, attachedPath, separatorFor_of_ne hdir, mmapInsert]

/-- Without a handle nothing is sent. -/
theorem DBCurl.regImageFile_of_no_handle (d : DBCurl) {ans : CurlAnswers}
    (hans : ans.handle = false) (cid filename filepath tmobs : Bytes) (microsec : Int32) :
    d.regImageFile ans cid filename filepath tmobs microsec = some (-2, none) := by
  simp [regImageFile, curlUpload, hans, mmapInsert]

/-! ### Names with a directory -/

/-- Everything up to the last separator. -/
def directoryPart (p : Bytes) : Bytes := (p.reverse.dropWhile (· ≠ 47)).reverse

/-- What stands behind it. -/
def lastName (p : Bytes) : Bytes := (p.reverse.takeWhile (· ≠ 47)).reverse

theorem directoryPart_append_lastName (p : Bytes) : directoryPart p ++ lastName p = p := by
  rw [directoryPart, lastName, ← List.reverse_append, List.takeWhile_append_dropWhile,
    List.reverse_reverse]

theorem mem_lastName (p : Bytes) : 47 ∉ lastName p := by
  intro h
  rw [lastName, List.mem_reverse] at h
  simpa using List.mem_takeWhile_imp h

/-- The directory part of a text with a name at its end. -/
theorem directoryPart_concat {base name : Bytes} (hname : 47 ∉ name) :
    directoryPart (base ++ 47 :: name) = base ++ [47] := by
  have hall : ∀ b ∈ name.reverse, (b ≠ 47 : Bool) := by
    intro b hb
    simp only [ne_eq, decide_not, Bool.not_eq_eq_eq_not, Bool.not_true, decide_eq_false_iff_not]
    rintro rfl
    exact hname (List.mem_reverse.mp hb)
  rw [directoryPart, List.reverse_append, List.reverse_cons, List.append_assoc,
    List.dropWhile_append_of_pos hall]
  simp

theorem components_separators (p : Bytes) (k : ℕ) :
    components (p ++ List.replicate k 47) = components p := by
  induction k with
  | zero => rw [List.replicate_zero, List.append_nil]
  | succ k ih =>
    rw [List.replicate_succ', ← List.append_assoc, components_append, ih]
    exact List.append_nil _

/-- Separators at the end of a text do not change its place. -/
theorem place_separators {p : Bytes} (hp : p ≠ []) (k : ℕ) :
    place (p ++ List.replicate k 47) = place p := by
  rw [place, place, components_separators, isAbsolute_append hp]

/-- A text without the separators at its end. -/
def stripped (p : Bytes) : Bytes := (p.reverse.dropWhile (· = 47)).reverse

theorem stripped_append (p : Bytes) : ∃ k, stripped p ++ List.replicate k 47 = p := by
  refine ⟨(p.reverse.takeWhile (· = 47)).length, ?_⟩
  have hall : (p.reverse.takeWhile (· = 47)).reverse =
      List.replicate (p.reverse.takeWhile (· = 47)).length 47 := by
    refine List.eq_replicate_iff.mpr ⟨List.length_reverse, fun b hb => ?_⟩
    simpa using List.mem_takeWhile_imp (List.mem_reverse.mp hb)
  rw [← hall, stripped, ← List.reverse_append, List.takeWhile_append_dropWhile,
    List.reverse_reverse]

theorem parentPath_eq (p : Bytes) : parentPath p =
    if (stripped (directoryPart p)).isEmpty then
      (if directoryPart p = p then [] else directoryPart p)
    else stripped (directoryPart p) := rfl

/-- The parent directory of a file is where its directory part leads. -/
theorem place_parentPath {base name : Bytes} (hname : 47 ∉ name) (hne : name ≠ []) :
    parentPath (base ++ 47 :: name) ≠ [] ∧
      place (parentPath (base ++ 47 :: name)) = place (base ++ [47]) := by
  have hself : base ++ [47] ≠ base ++ 47 :: name := by
    intro h
    exact hne (by simpa using h)
  rw [parentPath_eq, directoryPart_concat hname, if_neg hself]
  split
  · exact ⟨by simp, rfl⟩
  · rename_i hempty
    rw [List.isEmpty_iff] at hempty
    obtain ⟨k, hk⟩ := stripped_append (base ++ [47])
    refine ⟨hempty, ?_⟩
    conv_rhs => rw [← hk]
    rw [place_separators hempty]

variable {v : FsVersion} {dir name : Bytes}

/-- A relative name is put behind the directory. -/
theorem append_relative (hrel : isAbsolute name = false) (hne : name ≠ []) :
    append v dir name = dir ++ separatorFor dir ++ name := by
  cases v <;> simp [append, hrel, hne]

/-- A directory with its separator. -/
theorem exists_separated (hdir : dir ≠ []) : ∃ base, dir ++ separatorFor dir = base ++ [47] := by
  rw [separatorFor_of_ne hdir]
  split
  · exact ⟨dir, rfl⟩
  · rename_i hlast
    rw [not_not] at hlast
    refine ⟨dir.dropLast, ?_⟩
    rw [← hlast, List.dropLast_append_getLast]

/-- A directory part ends in a separator, or there is none. -/
theorem directoryPart_cases (p : Bytes) :
    directoryPart p = [] ∨ ∃ base, directoryPart p = base ++ [47] := by
  have hhead := List.head?_dropWhile_not (· ≠ 47) p.reverse
  rw [directoryPart]
  cases hd : p.reverse.dropWhile (· ≠ 47) with
  | nil => exact .inl rfl
  | cons b rest =>
    rw [hd] at hhead
    obtain rfl : b = 47 := by simpa using hhead
    exact .inr ⟨rest.reverse, List.reverse_cons⟩

theorem components_split (p : Bytes) :
    components p = components (directoryPart p) ++ components (lastName p) := by
  have hp := directoryPart_append_lastName p
  rcases directoryPart_cases p with hnone | ⟨base, hbase⟩
  · rw [hnone, List.nil_append] at hp
    rw [hnone, hp]
    rfl
  · rw [hbase, List.append_assoc, List.singleton_append] at hp
    have hslash : components (base ++ [47]) = components base :=
      components_separators base 1
    rw [hbase, hslash, ← components_append, hp]

/-- **Where the attached file is**: the directory part of the name is followed twice. -/
theorem place_attachedPath (hdir : dir ≠ []) (hrel : isAbsolute name = false)
    (hlast : lastName name ≠ []) : parentPath (append v dir name) ≠ [] ∧
      place (attachedPath v dir name) =
        ((place dir).walk (components (directoryPart name))).walk (components name) := by
  have hne : name ≠ [] := by
    rintro rfl
    exact hlast rfl
  obtain ⟨base, hbase⟩ : ∃ base, dir ++ separatorFor dir ++ directoryPart name = base ++ [47] := by
    rcases directoryPart_cases name with hnone | ⟨d, hd⟩
    · rw [hnone, List.append_nil]
      exact exists_separated hdir
    · exact ⟨dir ++ separatorFor dir ++ d, by rw [hd, ← List.append_assoc]⟩
  have hpath : append v dir name = base ++ 47 :: lastName name := by
    rw [append_relative hrel hne, ← directoryPart_append_lastName name, ← List.append_assoc,
      hbase, List.append_assoc, List.singleton_append, directoryPart_append_lastName]
  obtain ⟨hparent, hplace⟩ := @place_parentPath base _ (mem_lastName name) hlast
  rw [attachedPath, hpath]
  refine ⟨hparent, ?_⟩
  rw [place_separator hparent, hplace, ← hbase, place_separator hdir]

/-- The walk down a path without `..`. -/
theorem walk_names {α : Type} {p : List (Component α)} (h : .up ∉ p) (s : Place α) :
    ∃ w : List α, w.length = p.length ∧ s.walk p = s.descend w := by
  induction p generalizing s with
  | nil => exact ⟨[], rfl, Place.descend_nil.symm⟩
  | cons c p ih =>
    rw [List.mem_cons, not_or] at h
    cases c with
    | up => exact absurd rfl h.1
    | name a =>
      obtain ⟨w, hw, hs⟩ := ih h.2 (s.descend [a])
      refine ⟨a :: w, by simp [hw], ?_⟩
      rw [Place.descend_descend] at hs
      exact hs

/-- **Which file is attached**: the file that has been saved, exactly if its name has no
directory part. -/
theorem attached_iff (hdir : dir ≠ []) (hrel : isAbsolute name = false)
    (hlast : lastName name ≠ []) (hup : .up ∉ components name) :
    place (attachedPath v dir name) = place (append v dir name) ↔
      components (directoryPart name) = [] := by
  have hnot : ¬ Replaces v dir name := fun h => by cases hrel.symm.trans h.1
  rw [(place_attachedPath hdir hrel hlast).2, place_append, if_neg hnot, ← Place.walk_append]
  constructor
  · intro h
    have htwice : .up ∉ components (directoryPart name) ++ components name := by
      rw [List.mem_append, not_or]
      refine ⟨fun hmem => hup ?_, hup⟩
      rw [components_split]
      exact List.mem_append_left _ hmem
    obtain ⟨w, hw, hwalk⟩ := walk_names htwice (place dir)
    obtain ⟨u, hu, hwalk'⟩ := walk_names hup (place dir)
    rw [hwalk, hwalk'] at h
    have hnames : w = u := List.append_cancel_left (congrArg Place.names h)
    rw [hnames, hu, List.length_append] at hw
    exact List.length_eq_zero_iff.mp (by omega)
  · intro h
    rw [h, List.nil_append]

theorem attached_nested :
    place (attachedPath .v3 (lit "/data") (lit "night/a.fit")) =
        place (append .v3 (lit "/data") (lit "night/a.fit")) ↔
      components (directoryPart (lit "night/a.fit")) = [] :=
  attached_iff (by decide) (by decide) (by decide) (by decide)

/-- A plain name has no directory part. -/
theorem place_attached_of_plain (hdir : dir ≠ []) (hplain : 47 ∉ name) (hne : name ≠ []) :
    parentPath (append v dir name) ≠ [] ∧
      place (attachedPath v dir name) = place (append v dir name) := by
  have hnone : directoryPart name = [] := by
    rcases directoryPart_cases name with hnone | ⟨base, hbase⟩
    · exact hnone
    · refine absurd ?_ hplain
      rw [← directoryPart_append_lastName name, hbase]
      simp
  have hlast : lastName name ≠ [] := by
    have hp := directoryPart_append_lastName name
    rw [hnone, List.nil_append] at hp
    rwa [hp]
  have hrel : isAbsolute name = false := by
    cases name with
    | nil => rfl
    | cons b rest =>
      have hb : b ≠ 47 := fun h => hplain (h ▸ List.mem_cons_self ..)
      simpa [isAbsolute] using hb
  have hnot : ¬ Replaces v dir name := fun h => by cases hrel.symm.trans h.1
  obtain ⟨hparent, hplace⟩ := place_attachedPath (v := v) hdir hrel hlast
  refine ⟨hparent, ?_⟩
  rw [hplace, hnone, place_append, if_neg hnot]
  rfl

/-! ### Registrations -/

/-- What libcurl attaches to a request when it is sent. -/
def Post.attached (files : Place Bytes → Option Bytes) (p : Post) : List (Option Bytes) :=
  p.parts.filterMap fun
    | .contents .. => none
    | .file _ path => some (files (place path))

/-- A call of `RegImageFile`: the request that it sends, given a handle, with the files
attached. -/
structure Registration where
  post : Post
  attached : List (Option Bytes)
  deriving DecidableEq

/-- The disk, the calls of `curl_upload` so far, and the requests that they have sent. -/
structure Volume extends Disk where
  calls : ℕ
  registrations : List Registration

/-- What an effect does to the disk and to the database; `curl n` are the answers of
libcurl to the call after `n` others. -/
def Effect.onVolume (db : DBCurl) (curl : ℕ → CurlAnswers) (d : Volume) : Effect → Volume
  | .regImageFile cid filename filepath tmobs microsec =>
    let ans := curl d.calls
    match db.regImageFile ans cid filename filepath tmobs (Int32.ofInt microsec) with
    | some (_, some post) => { d with
        calls := d.calls + 1
        registrations := d.registrations ++ [⟨post, post.attached d.files⟩] }
    | _ => { d with calls := d.calls + 1 }
  | x => { d with toDisk := x.onDisk d.toDisk }

/-- The disk and the requests after the effects, from a disk that held `start`. -/
def volumeAfter (db : DBCurl) (curl : ℕ → CurlAnswers) (start : Place Bytes → Option Bytes)
    (effects : List Effect) : Volume :=
  effects.foldl (Effect.onVolume db curl) ⟨⟨start, none⟩, 0, []⟩

/-- The requests of those calls that got a handle. -/
def answered (curl : ℕ → CurlAnswers) (rs : List Registration) : List Registration :=
  (rs.zipIdx.filter fun x => (curl x.2).handle).map Prod.fst

theorem answered_concat (curl : ℕ → CurlAnswers) (rs : List Registration) (r : Registration) :
    answered curl (rs ++ [r]) =
      answered curl rs ++ if (curl rs.length).handle then [r] else [] := by
  rw [answered, List.zipIdx_append, List.filter_append, List.map_append, ← answered]
  cases h : (curl rs.length).handle
  · simp [h]
  · simp [h]

/-- What a save has the database told. -/
def registration (db : DBCurl) (env : SaveEnv) (dir : Bytes) (f : FileInfo) (bytes : Bytes) :
    List Registration :=
  if env.dbt then
    ((env.obsTime f.tmobs).map fun t =>
      (⟨regImagePost db env.fs dir f.cid f.filename t.1 (Int32.ofInt t.2), [some bytes]⟩ :
        Registration)).toList
  else []

/-- The name of a file is plain, and there is a directory. -/
structure PlainName (dir filename : Bytes) : Prop where
  dir : dir ≠ []
  separator : 47 ∉ filename
  filename : filename ≠ []

instance (dir filename : Bytes) : Decidable (PlainName dir filename) :=
  decidable_of_iff (dir ≠ [] ∧ 47 ∉ filename ∧ filename ≠ [])
    ⟨fun h => ⟨h.1, h.2.1, h.2.2⟩, fun h => ⟨h.dir, h.separator, h.filename⟩⟩

/-- The calls have been those of `rs`, and their requests have been sent. -/
structure Volume.Told (d : Volume) (curl : ℕ → CurlAnswers) (rs : List Registration) :
    Prop where
  calls : d.calls = rs.length
  registrations : d.registrations = answered curl rs

variable {db : DBCurl} {curl : ℕ → CurlAnswers} {env : SaveEnv} {f : FileInfo}
  {rs : List Registration}

/-- No call of `RegImageFile`. -/
def Effect.silent : Effect → Bool
  | .regImageFile .. => false
  | _ => true

theorem Volume.Told.foldl_silent {effects : List Effect} (h : ∀ x ∈ effects, x.silent = true)
    {d : Volume} (hd : d.Told curl rs) :
    (effects.foldl (Effect.onVolume db curl) d).Told curl rs := by
  induction effects generalizing d with
  | nil => exact hd
  | cons x effects ih =>
    have hx := h x (List.mem_cons_self ..)
    refine ih (fun y hy => h y (List.mem_cons_of_mem x hy)) ?_
    cases x with
    | regImageFile => cases hx
    | _ => exact ⟨hd.calls, hd.registrations⟩

/-- A file is opened and written. -/
theorem onVolume_write (d : Volume) (path bytes : Bytes) :
    ([Effect.fopen path, .fwrite bytes].foldl (Effect.onVolume db curl) d).files =
      Function.update d.files (place path) (some bytes) := by
  simp [Effect.onVolume, Effect.onDisk]

/-- The registration of a file that is on the disk. -/
theorem onVolume_register {reg : List Effect} {bytes : Bytes} {d : Volume}
    (ht : register env (append env.fs dir f.filename) f = .ok reg)
    (hplain : env.dbt = true → PlainName dir f.filename)
    (hfile : d.files (place (append env.fs dir f.filename)) = some bytes)
    (hd : d.Told curl rs) :
    (reg.foldl (Effect.onVolume db curl) d).Told curl
      (rs ++ registration db env dir f bytes) := by
  rw [register] at ht
  split at ht
  · rename_i hdb
    obtain ⟨hparent, hplace⟩ := place_attached_of_plain (v := env.fs) (hplain hdb).dir
      (hplain hdb).separator (hplain hdb).filename
    split at ht
    · cases ht
    · rename_i tmutc microsec hobs
      obtain rfl := Except.ok.inj ht
      set r : Registration :=
        ⟨regImagePost db env.fs dir f.cid f.filename tmutc (Int32.ofInt microsec), [some bytes]⟩
      have hreg : registration db env dir f bytes = [r] := by
        simp [registration, hdb, hobs, r]
      rw [hreg, List.foldl_cons, List.foldl_nil]
      cases hans : (curl d.calls).handle
      · have hcall := db.regImageFile_of_no_handle hans f.cid f.filename
          (parentPath (append env.fs dir f.filename)) tmutc (Int32.ofInt microsec)
        simp only [Effect.onVolume, hcall]
        refine ⟨by simp [hd.calls], ?_⟩
        rw [answered_concat, ← hd.calls, hans]
        simpa using hd.registrations
      · have hcall := db.regImageFile_eq hans hparent f.cid tmutc (Int32.ofInt microsec)
        have hattached : Post.attached d.files
            (regImagePost db env.fs dir f.cid f.filename tmutc (Int32.ofInt microsec)) =
              [some bytes] := by
          simp [Post.attached, regImagePost, hplace, hfile]
        simp only [Effect.onVolume, hcall, hattached]
        refine ⟨by simp [hd.calls], ?_⟩
        rw [answered_concat, ← hd.calls, hans, hd.registrations, if_pos rfl]
  · rename_i hdb
    obtain rfl := Except.ok.inj ht
    simpa [registration, hdb] using hd

/-- What an attempt to save has the database told. -/
theorem SaveStep.onVolume {ans : FsAnswers} {body : Except StdException Bool × List Effect}
    (h : SaveStep env ans dir f body) {rslt : Bool} (hr : body.1 = .ok rslt) (db : DBCurl)
    {d : Volume} (hplain : rslt = true → env.dbt = true → PlainName dir f.filename)
    (hd : d.Told curl rs) :
    (body.2.foldl (Effect.onVolume db curl) d).Told curl
      (rs ++ if rslt then registration db env dir f (f.filedata.take ans.fwrite) else []) := by
  have hmake : ∀ x ∈ (makeDirectory ans dir).2, x.silent = true := by
    intro x hx
    rw [makeDirectory_effects hx]
    rfl
  cases h with
  | noDirectory hdir =>
    cases rslt with
    | true => exact absurd hr hdir
    | false => simpa using hd.foldl_silent hmake
  | noFile =>
    obtain rfl := Except.ok.inj hr
    simpa using hd.foldl_silent hmake
  | badTime => cases hr
  | @saved hdir hf reg ht =>
    obtain rfl := Except.ok.inj hr
    have hrest : ∀ x ∈ Effect.popFront ::
        (if env.tcpcDp then [.notify (notification f)] else []), x.silent = true := by
      intro x hx
      rcases List.mem_cons.mp hx with rfl | hx
      · rfl
      · split at hx
        · rw [List.mem_singleton.mp hx]
          rfl
        · cases hx
    have hwrite : ∀ x ∈ [Effect.fopen (append env.fs dir f.filename),
        .fwrite (f.filedata.take ans.fwrite)], x.silent = true := by
      intro x hx
      simp only [List.mem_cons, List.not_mem_nil, or_false] at hx
      rcases hx with rfl | rfl <;> rfl
    have hfile := @onVolume_write db curl ((makeDirectory ans dir).2.foldl
      (Effect.onVolume db curl) d) (append env.fs dir f.filename) (f.filedata.take ans.fwrite)
    rw [List.foldl_append, List.foldl_append, List.foldl_append, if_pos rfl]
    refine Volume.Told.foldl_silent hrest (onVolume_register ht (hplain rfl) ?_
      ((hd.foldl_silent hmake).foldl_silent hwrite))
    rw [hfile, Function.update_self]

namespace TransferAgent

variable {ι : Type}

/-- What a step has the database told. -/
def registrationOf (db : DBCurl) (s : TransferAgent ι) (e : AgentEvent ι) : List Registration :=
  match e with
  | .monitor ans => (s.saveOf e).flatMap fun v =>
      registration db s.env s.filepath v.info (v.info.filedata.take ans.fwrite)
  | _ => []

/-- With a database, files are saved under plain names. -/
def PlainNames (s : TransferAgent ι) (e : AgentEvent ι) : Prop :=
  ∀ v ∈ s.saveOf e, s.env.dbt = true → PlainName s.filepath v.info.filename

instance (s : TransferAgent ι) (e : AgentEvent ι) : Decidable (PlainNames s e) :=
  inferInstanceAs (Decidable (∀ v ∈ s.saveOf e, _))

/-- As long as the process lives, these are the calls so far. -/
def Told (db : DBCurl) (curl : ℕ → CurlAnswers) (start : Place Bytes → Option Bytes)
    (s : TransferAgent ι) (rs : List Registration) : Prop :=
  s.halted = false → (volumeAfter db curl start s.effects).Told curl rs

variable [DecidableEq ι] [Fintype ι] {δ : Type} {dbl : DoubleLib δ}
  {start : Place Bytes → Option Bytes} {s s' : TransferAgent ι} {rs : List Registration}
  {e : AgentEvent ι}

theorem Told.step (h : Told db curl start s rs) (hplain : PlainNames s e)
    (hs : s.step dbl e = some s') : Told db curl start s' (rs ++ s.registrationOf db e) := by
  intro hlive
  obtain ⟨hh, hstep⟩ := step_cases hs
  have hsame : s'.effects = s.effects → s.registrationOf db e = [] →
      (volumeAfter db curl start s'.effects).Told curl (rs ++ s.registrationOf db e) := by
    intro heff hnone
    rw [heff, hnone, List.append_nil]
    exact h hh
  have hmon : ∀ ans, s.fw.mon ≠ .saving → s.registrationOf db (.monitor ans) = [] := by
    intro ans hm
    rw [registrationOf, saveOf_eq_nil hm, List.flatMap_nil]
  cases hstep with
  | recv | fail | io | msg | handOver | newFile | spurious | config => exact hsame rfl rfl
  | takeFirst hm => exact hsame rfl (hmon _ (by simp [hm]))
  | monitor hm hm' => exact hsame rfl (hmon _ hm')
  | saveThrew => cases hlive
  | @save ans a rslt w hm hp hb hw =>
    have hsave : rslt = true → s.saveOf (.monitor ans) = [⟨a, s.heap a, s.env.tcpcDp⟩] := by
      rintro rfl
      simp [saveOf, hm, hp, hb]
    have hname : rslt = true → s.env.dbt = true → PlainName s.filepath (s.heap a).filename :=
      fun hr => hplain _ (by rw [hsave hr]; exact List.mem_singleton_self _)
    have hbody := (saveBody_cases s.env ans s.filepath (s.heap a)).onVolume hb db hname (h hh)
    have hcalls : s.registrationOf db (.monitor ans) =
        if rslt then registration db s.env s.filepath (s.heap a)
          ((s.heap a).filedata.take ans.fwrite) else [] := by
      cases rslt with
      | true => simp [registrationOf, hsave]
      | false => simp [registrationOf, saveOf, hm, hp, hb]
    rw [volumeAfter, List.foldl_append, ← volumeAfter, hcalls]
    exact hbody

/-- **Saved files are registered.**  As long as the process lives, and whatever libcurl
answers, `RegImageFile` is called, in order, once for each file that was saved while there
was a database; the calls that got a handle have sent one request each, and what it
attaches are the bytes that the device has taken of this file, if the files have plain
names. -/
theorem registrations_of_run (db : DBCurl) (curl : ℕ → CurlAnswers)
    (start : Place Bytes → Option Bytes)
    {bufs : ι → PackBuf × PackBuf} {heap : Heap} {env : SaveEnv} {es : List (AgentEvent ι)}
    (hplain : Lts.RunAll (step dbl) PlainNames (init bufs heap env) es)
    (hrun : Lts.run (step dbl) (init bufs heap env) es = some s) (hlive : s.halted = false) :
    (volumeAfter db curl start s.effects).Told curl
      (Lts.outputs (step dbl) (registrationOf db) (init bufs heap env) es) := by
  have h : Told db curl start s
      ([] ++ Lts.outputs (step dbl) (registrationOf db) (init bufs heap env) es) :=
    Lts.run_outputs_of (fun _ _ _ _ => Told.step) (fun _ => ⟨rfl, rfl⟩) hplain hrun
  rw [List.nil_append] at h
  exact h hlive

def localDb : DBCurl := ⟨lit "http://db/", by decide⟩

/-- A server with a database, for files of one moment. -/
def registeringEnv : SaveEnv :=
  { single.env with
    pathRoot := lit "/data"
    dbt := true
    obsTime := fun t =>
      if t = lit "2023-05-01T20:00:00.5" then some (lit "20230502T040000", 500000) else none }

/-- Two files; libcurl has no handle for the first. -/
def registeredSchedule : List (AgentEvent Unit) :=
  .config registeringEnv :: monitorSteps 1 ++
    lineSchedule (lit "fileinfo cid=c,tmobs=2023-05-01T20:00:00.5,filename=a,filesize=2\n") ++
    dataSchedule [7, 8] ++ msgSteps 9 ++ monitorSteps 4 ++
    lineSchedule (lit "fileinfo cid=c,tmobs=2023-05-01T20:00:00.5,filename=b,filesize=1\n") ++
    dataSchedule [9] ++ msgSteps 9 ++ monitorSteps 4

def secondHandle (n : ℕ) : CurlAnswers := ⟨n = 1, 0, 0⟩

theorem registrations_registered : ∃ s : TransferAgent Unit,
    Lts.run (step unitLib) single registeredSchedule = some s ∧
    answered secondHandle
        (Lts.outputs (step unitLib) (registrationOf localDb) single registeredSchedule) =
      [⟨regImagePost localDb .v3 (lit "/data") (lit "c") (lit "b") (lit "20230502T040000") 500000,
        [some [9]]⟩] ∧
    (volumeAfter localDb secondHandle (fun _ => none) s.effects).Told secondHandle
      (Lts.outputs (step unitLib) (registrationOf localDb) single registeredSchedule) := by
  have heval : (Lts.run (step unitLib) single registeredSchedule).map
      (fun s => s.halted) = some false := by decide +kernel
  obtain ⟨s, hrun, hlive⟩ := Option.map_eq_some_iff.mp heval
  have hplain : Lts.RunAll (step unitLib) PlainNames single registeredSchedule := by
    decide +kernel
  exact ⟨s, hrun, by decide +kernel,
    registrations_of_run localDb secondHandle (fun _ => none) hplain hrun hlive⟩

end TransferAgent

end FtServer
