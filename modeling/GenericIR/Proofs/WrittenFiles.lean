import Mathlib.Data.List.Basic
import GenericIR.Machine

/-! Writing to files. A file and what its handle holds back are together all that was written to
the handle, until a flush leaves nothing behind; a full device holds back everything. Whatever
is opened and written, the output stream and all other files stay as they are. -/
namespace GenericIR

theorem overwrite_size (old new : ByteArray) : overwrite old old.size new = old ++ new := by
  have hzeros : (⟨Array.replicate (old.size - old.size) 0⟩ : ByteArray) = .empty := by
    rw [Nat.sub_self]
    rfl
  have hrest : old.extract (old.size + new.size) old.size = .empty := by
    rw [ByteArray.extract_eq_empty_iff]
    omega
  rw [overwrite, hzeros, hrest, ByteArray.extract_zero_size, ByteArray.append_empty,
    ByteArray.append_empty]

namespace Disk

variable {d : Disk} {key : String} {bytes content : ByteArray} {position : Option Nat}

@[simp] theorem locate_place (d : Disk) (key : String) (position : Option Nat) (bytes : ByteArray) :
    (d.place key position bytes).locate = d.locate := by
  unfold place
  split
  · rfl
  · split <;> rfl

theorem find?_store (d : Disk) (key : String) (bytes : ByteArray) :
    (d.store key bytes).files.find? key = some bytes := by
  rw [store, Dict.find?_replace, if_pos rfl]

theorem find?_store_of_ne {k : String} (h : k ≠ key) (d : Disk) (bytes : ByteArray) :
    (d.store k bytes).files.find? key = d.files.find? key := by
  rw [store, Dict.find?_replace, if_neg h]

theorem find?_place_of_ne {k : String} (h : k ≠ key) (d : Disk) (position : Option Nat)
    (bytes : ByteArray) : (d.place k position bytes).files.find? key = d.files.find? key := by
  unfold place
  split
  · rfl
  · split <;> exact find?_store_of_ne h d _

/-- At the end of a file, bytes are added to it. -/
theorem find?_place (hfile : d.files.find? key = some content)
    (hend : position = none ∨ position = some content.size) (bytes : ByteArray) :
    (d.place key position bytes).files.find? key = some (content ++ bytes) := by
  have hread : d.read key = content := by rw [read, hfile, Option.getD_some]
  unfold place
  split
  · rename_i hempty
    have hbytes : bytes = .empty :=
      ByteArray.size_eq_zero_iff.1 (by simpa [ByteArray.isEmpty] using hempty)
    rw [hbytes, ByteArray.append_empty, hfile]
  · rcases hend with rfl | rfl
    · exact (d.find?_store key _).trans (by rw [hread])
    · exact (d.find?_store key _).trans (by rw [hread, overwrite_size])

end Disk

namespace Machine

/-- The files behind the handles. -/
def keys (s : Machine) : List (Option String) :=
  s.opened.map OpenFile.key

/-- From the one machine to the other, only these files are written to, and nothing is shown. -/
structure AltersOnly (written : String → Prop) (s t : Machine) : Prop where
  out : t.out = s.out
  locate : t.disk.locate = s.disk.locate
  keys : s.keys <+: t.keys
  files : ∀ key, ¬ written key → t.disk.files.find? key = s.disk.files.find? key

namespace AltersOnly

variable {written : String → Prop} {s t u : Machine}

theorem refl (written : String → Prop) (s : Machine) : AltersOnly written s s :=
  ⟨rfl, rfl, List.prefix_rfl, fun _ _ => rfl⟩

theorem trans (h : AltersOnly written s t) (h' : AltersOnly written t u) :
    AltersOnly written s u where
  out := h'.out.trans h.out
  locate := h'.locate.trans h.locate
  keys := h.keys.trans h'.keys
  files key hkey := (h'.files key hkey).trans (h.files key hkey)

theorem mono {more : String → Prop} (h : AltersOnly written s t)
    (hmore : ∀ key, written key → more key) : AltersOnly more s t :=
  ⟨h.out, h.locate, h.keys, fun key hkey => h.files key fun hw => hkey (hmore key hw)⟩

end AltersOnly

variable {written : String → Prop} {s t : Machine} {handle : Nat} {f : OpenFile}

/-- The handle is open, and if there is a file behind it, it is one of these. -/
def Opened (written : String → Prop) (s : Machine) (handle : Nat) : Prop :=
  ∃ k, s.keys[handle]? = some k ∧ ∀ key ∈ k, written key

theorem Opened.mono {more : String → Prop} (h : Opened written s handle)
    (hmore : ∀ key, written key → more key) : Opened more s handle := by
  obtain ⟨k, hk, hwritten⟩ := h
  exact ⟨k, hk, fun key hkey => hmore key (hwritten key hkey)⟩

/-- What a handle stands for does not change. -/
theorem Opened.later (h : Opened written s handle) (hkeys : s.keys <+: t.keys) :
    Opened written t handle := by
  obtain ⟨k, hk, hwritten⟩ := h
  obtain ⟨rest, hrest⟩ := hkeys
  have hlt : handle < s.keys.length := (List.getElem?_eq_some_iff.1 hk).1
  exact ⟨k, by rw [← hrest, List.getElem?_append_left hlt, hk], hwritten⟩

theorem keys_prefix_set {g : OpenFile} (hf : s.opened[handle]? = some f) (hg : g.key = f.key) :
    s.keys <+: (s.opened.set handle g).map OpenFile.key := by
  obtain ⟨hlt, rfl⟩ := List.getElem?_eq_some_iff.1 hf
  have hlt' : handle < (s.opened.map OpenFile.key).length := by simpa using hlt
  have hsame : (s.opened.map OpenFile.key)[handle] = g.key := by rw [List.getElem_map, hg]
  rw [List.map_set, ← hsame, List.set_getElem_self]
  exact List.prefix_rfl

theorem write_of_opened (hf : s.opened[handle]? = some f) (piece : Piece) :
    s.write handle piece = (s.send handle f (f.buffer.add piece).1 (f.buffer.add piece).2).2 := by
  rw [write, hf]

theorem flush_of_opened (hf : s.opened[handle]? = some f) :
    s.flush handle = s.send handle f f.buffer.held {} := by
  rw [flush, hf]

/-- Only the file behind the handle is written to. -/
theorem Opened.altersOnly_send (h : Opened written s handle) (hf : s.opened[handle]? = some f)
    (bytes : ByteArray) (buffer : Buffer) :
    AltersOnly written s (s.send handle f bytes buffer).2 := by
  obtain ⟨k, hk, hwritten⟩ := h
  have hkey : f.key = k := by simpa [keys, hf] using hk
  unfold send
  split
  · exact ⟨rfl, rfl, keys_prefix_set hf rfl, fun _ _ => rfl⟩
  · rename_i k' hk'
    refine ⟨rfl, Disk.locate_place .., keys_prefix_set hf rfl, fun key hother => ?_⟩
    refine Disk.find?_place_of_ne ?_ _ _ _
    rintro rfl
    exact hother (hwritten _ (hkey ▸ hk'))

theorem Opened.exists_opened (h : Opened written s handle) : ∃ f, s.opened[handle]? = some f := by
  obtain ⟨k, hk, -⟩ := h
  rw [keys, List.getElem?_map, Option.map_eq_some_iff] at hk
  obtain ⟨f, hf, -⟩ := hk
  exact ⟨f, hf⟩

theorem Opened.altersOnly_write (h : Opened written s handle) (piece : Piece) :
    AltersOnly written s (s.write handle piece) := by
  obtain ⟨f, hf⟩ := h.exists_opened
  rw [write_of_opened hf]
  exact h.altersOnly_send hf _ _

theorem Opened.altersOnly_flush (h : Opened written s handle) :
    AltersOnly written s (s.flush handle).2 := by
  obtain ⟨f, hf⟩ := h.exists_opened
  rw [flush_of_opened hf]
  exact h.altersOnly_send hf _ _

/-- Opening may create the file or empty it. -/
theorem openFile_spec (s : Machine) (path : String) (mode : FileMode) :
    AltersOnly (fun key => s.disk.locate path = .file key) s (s.openFile path mode).2 ∧
      ∀ handle, (s.openFile path mode).1 = some handle →
        Opened (fun key => s.disk.locate path = .file key) (s.openFile path mode).2 handle := by
  have hadd (f : OpenFile) : s.keys <+: (s.opened ++ [f]).map OpenFile.key := by
    rw [List.map_append]
    exact List.prefix_append _ _
  have hlast (f : OpenFile) :
      ((s.opened ++ [f]).map OpenFile.key)[s.opened.length]? = some f.key := by
    simp
  unfold openFile
  cases hlocate : s.disk.locate path with
  | refused => exact ⟨.refl _ s, nofun⟩
  | full =>
    refine ⟨⟨rfl, rfl, hadd _, fun _ _ => rfl⟩, ?_⟩
    rintro _ ⟨⟩
    exact ⟨none, hlast _, nofun⟩
  | file k =>
    have hfiles (bytes : ByteArray) (key : String) (hkey : ¬ Location.file k = .file key) :
        (s.disk.store k bytes).files.find? key = s.disk.files.find? key :=
      Disk.find?_store_of_ne (fun h => hkey (congrArg Location.file h)) s.disk bytes
    have hkey : ∀ key ∈ some k, Location.file k = .file key := by
      rintro _ ⟨⟩
      rfl
    cases mode with
    | replace =>
      refine ⟨⟨rfl, rfl, hadd _, hfiles _⟩, ?_⟩
      rintro _ ⟨⟩
      exact ⟨some k, hlast _, hkey⟩
    | append =>
      refine ⟨⟨rfl, rfl, hadd _, hfiles _⟩, ?_⟩
      rintro _ ⟨⟩
      exact ⟨some k, hlast _, hkey⟩

/-- The file and what the handle holds back for it are together these bytes. -/
structure Carries (s : Machine) (handle : Nat) (key : String) (bytes : ByteArray) : Prop where
  exists_content : ∃ f content, s.opened[handle]? = some f ∧ f.key = some key ∧
    (f.position = none ∨ f.position = some content.size) ∧
    s.disk.files.find? key = some content ∧ content ++ f.buffer.held = bytes

/-- No text arrives at a full device, all these bytes are held back. -/
structure HoldsBack (s : Machine) (handle : Nat) (bytes : ByteArray) : Prop where
  exists_opened : ∃ f, s.opened[handle]? = some f ∧ f.key = none ∧ f.buffer.held = bytes

variable {key path : String} {bytes : ByteArray}

theorem carries_openFile (h : s.disk.locate path = .file key) :
    (s.openFile path .replace).1 = some s.opened.length ∧
      Carries (s.openFile path .replace).2 s.opened.length key .empty := by
  unfold openFile
  rw [h]
  refine ⟨rfl, ⟨⟨_, .empty, List.getElem?_concat_length, rfl, .inr rfl, ?_, rfl⟩⟩⟩
  exact Disk.find?_store s.disk key .empty

theorem holdsBack_openFile (h : s.disk.locate path = .full) (mode : FileMode) :
    (s.openFile path mode).1 = some s.opened.length ∧
      HoldsBack (s.openFile path mode).2 s.opened.length .empty := by
  unfold openFile
  rw [h]
  exact ⟨rfl, ⟨⟨_, List.getElem?_concat_length, rfl, rfl⟩⟩⟩

/-- Bytes that are sent arrive in the file. -/
theorem carries_send {content : ByteArray} (hf : s.opened[handle]? = some f)
    (hkey : f.key = some key) (hend : f.position = none ∨ f.position = some content.size)
    (hfile : s.disk.files.find? key = some content) (bytes : ByteArray) (buffer : Buffer) :
    (s.send handle f bytes buffer).2.disk.files.find? key = some (content ++ bytes) ∧
      Carries (s.send handle f bytes buffer).2 handle key (content ++ bytes ++ buffer.held) := by
  have hlt : handle < s.opened.length := (List.getElem?_eq_some_iff.1 hf).1
  have hplaced := Disk.find?_place hfile hend bytes
  unfold send
  rw [hkey]
  refine ⟨hplaced, ⟨⟨_, content ++ bytes, List.getElem?_set_self hlt, rfl, ?_, hplaced, rfl⟩⟩⟩
  rcases hend with hend | hend
  · exact .inl (by rw [hend]; rfl)
  · exact .inr (by rw [hend, ByteArray.size_append]; rfl)

theorem Carries.write (h : Carries s handle key bytes) (piece : Piece) :
    Carries (s.write handle piece) handle key (bytes ++ piece.bytes) := by
  obtain ⟨f, content, hf, hkey, hend, hfile, rfl⟩ := h.exists_content
  rw [write_of_opened hf, ByteArray.append_assoc, ← Buffer.add_append, ← ByteArray.append_assoc]
  exact (carries_send hf hkey hend hfile _ _).2

/-- A flush leaves nothing behind. -/
theorem Carries.flush (h : Carries s handle key bytes) :
    (s.flush handle).1 = true ∧ (s.flush handle).2.disk.files.find? key = some bytes := by
  obtain ⟨f, content, hf, hkey, hend, hfile, rfl⟩ := h.exists_content
  rw [flush_of_opened hf, send_fst, hkey]
  exact ⟨rfl, (carries_send hf hkey hend hfile _ _).1⟩

theorem HoldsBack.write (h : HoldsBack s handle bytes) (piece : Piece) :
    HoldsBack (s.write handle piece) handle (bytes ++ piece.bytes) := by
  obtain ⟨f, hf, hkey, rfl⟩ := h.exists_opened
  have hlt : handle < s.opened.length := (List.getElem?_eq_some_iff.1 hf).1
  rw [write_of_opened hf, ← Buffer.add_append]
  unfold send
  rw [hkey]
  exact ⟨⟨_, List.getElem?_set_self hlt, rfl, rfl⟩⟩

/-- The flush shows that something did not arrive. -/
theorem HoldsBack.flush (h : HoldsBack s handle bytes) :
    (s.flush handle).1 = bytes.isEmpty := by
  obtain ⟨f, hf, hkey, rfl⟩ := h.exists_opened
  rw [flush_of_opened hf, send_fst, hkey]
  exact congrArg ByteArray.isEmpty ByteArray.append_empty

end Machine

end GenericIR
