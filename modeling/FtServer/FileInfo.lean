/-
FtServer/FileInfo.lean

The files in transit.  A `FileInfo` owns a buffer of exactly `filesize` bytes,
which its type records, so a negative size has no object: the constructor
`create` throws there.  Objects are shared by pointer between a receiver, the
queue of the writer and the thread that saves them, so they live in a heap and
everybody else holds addresses.

The two counters are `int`.  `dataArrive` is undefined where `rcvsize + n`
overflows; short of that it copies without looking at the size of the buffer,
and what falls past its end is not part of the object.
-/
import Mathlib.Data.Int.Notation
import Mathlib.Logic.Function.Basic
import FtServer.Text

namespace FtServer

/-- `INT_MAX`. -/
def intMax : ℤ := Int32.maxValue.toInt

/-- `FileInfo`, without `grid` and `field`, which nothing reads or writes. -/
structure FileInfo where
  gid : Bytes
  uid : Bytes
  cid : Bytes
  tmobs : Bytes
  subpath : Bytes
  filename : Bytes
  filesize : ℤ
  rcvsize : ℤ
  filedata : Bytes
  filedata_length : (filedata.length : ℤ) = filesize
  deriving DecidableEq

namespace FileInfo

/-- `FileInfo(filesize)`.  The buffer starts with whatever its memory holds. -/
def create (filesize : ℤ) (junk : ℕ → UInt8) : Except StdException FileInfo :=
  if h : 0 ≤ filesize then
    .ok { gid := [], uid := [], cid := [], tmobs := [], subpath := [], filename := [],
          filesize := filesize, rcvsize := 0,
          filedata := (List.range filesize.toNat).map junk,
          filedata_length := by simpa using Int.toNat_of_nonneg h }
  else .error .badAlloc

/-- `DataArrive(data, n)`: the object afterwards and whether all bytes have
come; `none` where the counter overflows. -/
def dataArrive (f : FileInfo) (data : Bytes) : Option (FileInfo × Bool) :=
  let n : ℤ := data.length
  if f.rcvsize + n ≤ intMax then
    some ({ f with
            filedata := overlay f.filedata f.rcvsize.toNat data
            rcvsize := f.rcvsize + n
            filedata_length := by rw [overlay_length, f.filedata_length] },
          decide (f.filesize ≤ f.rcvsize + n))
  else none

theorem filesize_nonneg (f : FileInfo) : 0 ≤ f.filesize := by
  rw [← f.filedata_length]
  exact Int.natCast_nonneg _

theorem filedata_length_toNat (f : FileInfo) : f.filedata.length = f.filesize.toNat := by
  rw [← f.filedata_length, Int.toNat_natCast]

/-- What a successful construction builds. -/
theorem create_ok {size : ℤ} {junk : ℕ → UInt8} {f : FileInfo}
    (h : create size junk = .ok f) : f.filesize = size ∧ f.rcvsize = 0 := by
  unfold create at h
  split at h
  · obtain rfl := Except.ok.inj h
    exact ⟨rfl, rfl⟩
  · cases h

theorem create_nonneg {size : ℤ} {junk : ℕ → UInt8} (h : 0 ≤ size) :
    ∃ f, create size junk = .ok f := by
  rw [create, dif_pos h]
  exact ⟨_, rfl⟩

/-- `dataArrive` is defined up to the overflow of the counter. -/
theorem dataArrive_isSome {f : FileInfo} {data : Bytes} (h : f.rcvsize + data.length ≤ intMax) :
    (f.dataArrive data).isSome = true := by
  rw [dataArrive]
  rw [if_pos h]
  rfl

/-- `dataArrive` in full: it is defined up to the overflow of the counter,
overlays the data at `rcvsize`, advances `rcvsize`, and touches nothing else. -/
theorem dataArrive_spec {f f' : FileInfo} {data : Bytes} {full : Bool}
    (h : f.dataArrive data = some (f', full)) :
    f.rcvsize + data.length ≤ intMax ∧
      f'.filedata = overlay f.filedata f.rcvsize.toNat data ∧
      f'.rcvsize = f.rcvsize + data.length ∧ f'.filesize = f.filesize ∧
      f'.gid = f.gid ∧ f'.uid = f.uid ∧ f'.cid = f.cid ∧ f'.tmobs = f.tmobs ∧
      f'.subpath = f.subpath ∧ f'.filename = f.filename ∧
      full = decide (f.filesize ≤ f'.rcvsize) := by
  unfold dataArrive at h
  dsimp only at h
  split at h
  · rename_i hle
    obtain ⟨rfl, rfl⟩ := Prod.mk.inj (Option.some.inj h)
    exact ⟨hle, rfl, rfl, rfl, rfl, rfl, rfl, rfl, rfl, rfl, rfl⟩
  · cases h

/-- The part of a file that is fixed once it is queued: everything but the
counter of bytes received. -/
def SameFile (f g : FileInfo) : Prop :=
  g.gid = f.gid ∧ g.uid = f.uid ∧ g.cid = f.cid ∧ g.tmobs = f.tmobs ∧
    g.subpath = f.subpath ∧ g.filename = f.filename ∧ g.filesize = f.filesize ∧
    g.filedata = f.filedata

theorem SameFile.refl (f : FileInfo) : SameFile f f :=
  ⟨rfl, rfl, rfl, rfl, rfl, rfl, rfl, rfl⟩

/-- Bytes that arrive once the buffer is full leave the file as it is. -/
theorem dataArrive_sameFile {f f' : FileInfo} {data : Bytes} {full : Bool}
    (h : f.dataArrive data = some (f', full)) (hfull : f.filesize ≤ f.rcvsize) :
    SameFile f f' := by
  obtain ⟨-, hdata, -, hsize, hg, hu, hc, ht, hs, hn, -⟩ := dataArrive_spec h
  refine ⟨hg, hu, hc, ht, hs, hn, hsize, ?_⟩
  rw [hdata, overlay_of_le]
  rw [f.filedata_length_toNat]
  exact Int.toNat_le_toNat hfull

end FileInfo

/-! ### The heap -/

/-- Addresses of `FileInfo` objects. -/
abbrev Addr := ℕ

/-- The objects, by address. -/
abbrev Heap := Addr → FileInfo

end FtServer
