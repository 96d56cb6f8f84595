/-
FtServer/UploadPaths.lean

Where uploads end up.  `save_first` joins the storage root with the subpath of a file
and then with its filename, both as the client has sent them; nothing looks at `..` or
at a leading separator.

`staysUnder_iff` says for which texts the directory that is created and the file that
is opened lie under the root: neither the subpath nor the subpath followed by the
filename leads out of it, and a text that replaces what it is appended to names a place
under the root itself.
-/
import FtServer.LexicalPath
import FtServer.SaveReturns

namespace FtServer

open FsPath Lexical

/-! ### The place of a path -/

/-- The component that a piece between two separators stands for, if any. -/
def component (piece : Bytes) : List (Component Bytes) :=
  if piece = [] ∨ piece = [46] then []
  else if piece = [46, 46] then [.up]
  else [.name piece]

/-- The components of a path of which `piece` has been read. -/
def componentsFrom : Bytes → Bytes → List (Component Bytes)
  | piece, [] => component piece
  | piece, b :: rest =>
    if b = 47 then component piece ++ componentsFrom [] rest
    else componentsFrom (piece ++ [b]) rest

def components (p : Bytes) : List (Component Bytes) := componentsFrom [] p

/-- The lexical normal form of a path. -/
def place (p : Bytes) : Place Bytes := (Place.start (isAbsolute p)).walk (components p)

theorem componentsFrom_append (piece p q : Bytes) :
    componentsFrom piece (p ++ 47 :: q) = componentsFrom piece p ++ components q := by
  induction p generalizing piece with
  | nil => rfl
  | cons b rest ih =>
    rw [List.cons_append, componentsFrom, componentsFrom]
    split
    · rw [ih, List.append_assoc]
    · exact ih _

/-- A separator ends a component. -/
theorem components_append (p q : Bytes) :
    components (p ++ 47 :: q) = components p ++ components q :=
  componentsFrom_append [] p q

/-- The separator in front of an absolute path adds no component. -/
theorem components_cons (q : Bytes) : components (47 :: q) = components q := rfl

/-- The appended text takes the place of what is before it. -/
def Replaces (v : FsVersion) (base p : Bytes) : Prop :=
  isAbsolute p = true ∧ (v = .v4 ∨ base = [])

instance (v : FsVersion) (base p : Bytes) : Decidable (Replaces v base p) :=
  inferInstanceAs (Decidable (_ ∧ _))

theorem isAbsolute_append {p q : Bytes} (h : p ≠ []) : isAbsolute (p ++ q) = isAbsolute p := by
  rw [isAbsolute, isAbsolute, List.head?_append_of_ne_nil _ h]

/-- Text that is put behind a separator is walked from what stands before it. -/
theorem place_separator {base p : Bytes} (hbase : base ≠ []) :
    place (base ++ separatorFor base ++ p) = (place base).walk (components p) := by
  rw [separatorFor]
  split
  · rename_i hsep
    obtain ⟨front, rfl⟩ : ∃ front, base = front ++ [47] := by
      rcases List.eq_nil_or_concat base with rfl | ⟨front, b, rfl⟩
      · exact absurd rfl hbase
      · refine ⟨front, ?_⟩
        simpa using hsep
    have hslash : components (front ++ [47]) = components front :=
      (components_append front []).trans (List.append_nil _)
    rw [place, place, List.append_nil, isAbsolute_append hbase, hslash,
      List.append_assoc, List.singleton_append, components_append, Place.walk_append]
  · rw [place, place, List.append_assoc, List.singleton_append, isAbsolute_append hbase,
      components_append, Place.walk_append]

/-- Where an appended text leads. -/
theorem place_append (v : FsVersion) (base p : Bytes) :
    place (append v base p) =
      if Replaces v base p then place p else (place base).walk (components p) := by
  rcases eq_or_ne base [] with rfl | hbase
  · rw [append_nil_left]
    cases habs : isAbsolute p
    · have hnot : ¬ Replaces v [] p := fun h => by cases habs.symm.trans h.1
      rw [if_neg hnot, place, habs]
      rfl
    · rw [if_pos ⟨habs, .inr rfl⟩]
  cases v with
  | v3 =>
    have hnot : ¬ Replaces .v3 base p := by simp [Replaces, hbase]
    rw [if_neg hnot, append]
    split
    · rename_i hp
      rw [List.isEmpty_iff.mp hp]
      rfl
    · split
      · rename_i habs
        obtain ⟨q, rfl⟩ : ∃ q, p = 47 :: q := by
          rw [isAbsolute, beq_iff_eq] at habs
          exact List.head?_eq_some_iff.mp habs
        rw [place, isAbsolute_append hbase, components_append, components_cons,
          Place.walk_append, ← place]
      · exact place_separator hbase
  | v4 =>
    rw [append]
    split
    · rename_i habs
      rw [if_pos ⟨habs, .inl rfl⟩]
    · rename_i habs
      rw [if_neg fun h => habs h.1, place_separator hbase]

/-! ### The property and the condition -/

/-- The path does not lead out of `pathRoot_`. -/
def UnderRoot (env : SaveEnv) (p : Bytes) : Prop := (place env.pathRoot).Under (place p)

instance (env : SaveEnv) (p : Bytes) : Decidable (UnderRoot env p) :=
  inferInstanceAs (Decidable (Place.Under ..))

/-- The directory that is created and the file that is opened are under the root. -/
structure StaysUnder (env : SaveEnv) (effects : List Effect) : Prop where
  createDirectory : ∀ dir, .createDirectory dir ∈ effects → UnderRoot env dir
  fopen : ∀ path, .fopen path ∈ effects → UnderRoot env path

/-- Subpath and filename do not lead out of the root. -/
structure Confined (env : SaveEnv) (f : FileInfo) : Prop where
  subpath :
    if Replaces env.fs env.pathRoot f.subpath then UnderRoot env f.subpath
    else (place env.pathRoot).LeadsBack (Place.relative (components f.subpath))
  filename :
    if Replaces env.fs (directory env f) f.filename then UnderRoot env f.filename
    else if Replaces env.fs env.pathRoot f.subpath then
      (place env.pathRoot).Under ((place f.subpath).walk (components f.filename))
    else (place env.pathRoot).LeadsBack
      (Place.relative (components f.subpath ++ components f.filename))

/-! ### When uploads stay under the root -/

variable {env : SaveEnv} {f : FileInfo}

theorem directory_under_iff : UnderRoot env (directory env f) ↔
    if Replaces env.fs env.pathRoot f.subpath then UnderRoot env f.subpath
    else (place env.pathRoot).LeadsBack (Place.relative (components f.subpath)) := by
  rw [UnderRoot, directory, place_append]
  split
  · rfl
  · exact Place.under_walk_iff ..

theorem path_under_iff : UnderRoot env (append env.fs (directory env f) f.filename) ↔
    if Replaces env.fs (directory env f) f.filename then UnderRoot env f.filename
    else if Replaces env.fs env.pathRoot f.subpath then
      (place env.pathRoot).Under ((place f.subpath).walk (components f.filename))
    else (place env.pathRoot).LeadsBack
      (Place.relative (components f.subpath ++ components f.filename)) := by
  rw [UnderRoot, place_append]
  split
  · rfl
  · rw [directory, place_append]
    split
    · rfl
    · rw [← Place.walk_append]
      exact Place.under_walk_iff ..

/-- The registration neither creates a directory nor opens a file. -/
theorem register_mem {path : Bytes} {reg : List Effect} (h : register env path f = .ok reg)
    {x : Effect} (hx : x ∈ reg) : ∃ cid name dir t us, x = .regImageFile cid name dir t us := by
  unfold register at h
  split at h
  · split at h
    · cases h
    · obtain rfl := Except.ok.inj h
      exact ⟨_, _, _, _, _, List.mem_singleton.mp hx⟩
  · obtain rfl := Except.ok.inj h
    cases hx

/-- An attempt creates no directory but its own and opens no file but its own. -/
theorem saveBody_paths {ans : FsAnswers} {dir p : Bytes} :
    (.createDirectory p ∈ (saveBody env ans dir f).2 → p = dir) ∧
      (.fopen p ∈ (saveBody env ans dir f).2 → p = append env.fs dir f.filename) := by
  have hdir : .createDirectory p ∈ (makeDirectory ans dir).2 → p = dir := fun h =>
    Effect.createDirectory.inj (makeDirectory_effects h)
  have hfile : .fopen p ∉ (makeDirectory ans dir).2 := fun h => by
    cases makeDirectory_effects h
  have hstep := saveBody_cases env ans dir f
  generalize saveBody env ans dir f = body at hstep
  cases hstep with
  | noDirectory | noFile => exact ⟨hdir, fun h => absurd h hfile⟩
  | badTime hd hf ht =>
    constructor
    · intro h
      exact hdir (by simpa using h)
    · intro h
      simpa [hfile] using h
  | @saved _ _ reg ht =>
    have hregDir : Effect.createDirectory p ∉ reg := fun h => by
      obtain ⟨_, _, _, _, _, hx⟩ := register_mem ht h
      cases hx
    have hregFile : Effect.fopen p ∉ reg := fun h => by
      obtain ⟨_, _, _, _, _, hx⟩ := register_mem ht h
      cases hx
    constructor
    · intro h
      cases env.tcpcDp <;> exact hdir (by simpa [hregDir] using h)
    · intro h
      cases hdp : env.tcpcDp <;> simpa [hfile, hregFile, hdp] using h

/-- With nothing in the way the directory is created and the file opened. -/
theorem saveBody_reaches (dir : Bytes) :
    .createDirectory dir ∈ (saveBody env ⟨.ok false, .ok true, true, 0⟩ dir f).2 ∧
      .fopen (append env.fs dir f.filename) ∈
        (saveBody env ⟨.ok false, .ok true, true, 0⟩ dir f).2 := by
  simp only [saveBody, makeDirectory, if_true]
  rcases register env (append env.fs dir f.filename) f with e | reg
  · simp
  · simp

/-- **When uploads stay under the root**, whatever the file system answers. -/
theorem staysUnder_iff (env : SaveEnv) (h : Heap) (a : Addr) (rest : List Addr) :
    (∀ ans r, saveFirst env ans h (a :: rest) = some r → StaysUnder env r.effects) ↔
      Confined env (h a) := by
  constructor
  · intro hall
    have hunder := hall ⟨.ok false, .ok true, true, 0⟩ _ rfl
    obtain ⟨hdir, hpath⟩ := @saveBody_reaches env (saveBegin env (h a)) (directory env (h a))
    exact ⟨directory_under_iff.mp (hunder.createDirectory _ hdir),
      path_under_iff.mp (hunder.fopen _ hpath)⟩
  · intro hconfined ans r hr
    obtain rfl := Option.some.inj hr
    refine ⟨fun dir hdir => ?_, fun path hpath => ?_⟩
    · rw [saveBody_paths.1 hdir]
      exact directory_under_iff.mpr hconfined.subpath
    · rw [saveBody_paths.2 hpath]
      exact path_under_iff.mpr hconfined.filename

namespace TransferAgent

/-- `single` with a storage root. -/
def singleAt (root : Bytes) : TransferAgent Unit :=
  { single with env := { single.env with pathRoot := root } }

/-- A subpath that starts with `..` creates a directory beside the root. -/
theorem not_staysUnder_up :
    ¬ ∀ (es : List (AgentEvent Unit)) (s : TransferAgent Unit),
      Lts.run (step unitLib) (singleAt (lit "/data")) es = some s → StaysUnder s.env s.effects := by
  intro h
  let es := saveSchedule (lit "fileinfo filename=a,subpath=../etc,filesize=2\n") ++
    [.monitor ⟨.ok false, .ok true, true, 2⟩]
  have heval : (Lts.run (step unitLib) (singleAt (lit "/data")) es).map
      (fun s => (s.env.pathRoot, s.effects.head?)) =
        some (lit "/data", some (.createDirectory (lit "/data/../etc"))) := by decide +kernel
  obtain ⟨s, hrun, hs⟩ := Option.map_eq_some_iff.mp heval
  obtain ⟨hroot, heffect⟩ := Prod.mk.inj hs
  have hunder := (h es s hrun).createDirectory _ (List.mem_of_mem_head? heffect)
  rw [UnderRoot, hroot] at hunder
  exact absurd hunder (by decide +kernel)

end TransferAgent

end FtServer
