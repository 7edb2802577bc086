import GenericIR.Proofs.WrittenFiles
import GenericIR.Tool.Run

/-! The output file. A text is written out in full where the path leads to a file, and nowhere
else; the tool is told which it was. -/
namespace GenericIR

open Machine

theorem Piece.isEmpty_bytes_text {t : Text} (h : t ≠ []) :
    (Piece.text t).bytes.isEmpty = false := by
  obtain ⟨c, t, rfl⟩ := List.exists_cons_of_ne_nil h
  have hlength : 0 < (String.utf8EncodeChar c ++ Text.encode t).length := by
    rw [List.length_append]
    exact Nat.add_pos_left (List.length_pos_iff.2 String.utf8EncodeChar_ne_nil) _
  have hsize : (Piece.text (c :: t)).bytes.size =
      (String.utf8EncodeChar c ++ Text.encode t).length := rfl
  rw [ByteArray.isEmpty, hsize]
  exact beq_false_of_ne (Nat.ne_of_gt hlength)

namespace Tool

variable {path key : String} {text : Text} {s : Machine}

theorem run_writeOutput (path : String) (text : Text) (s : Machine) :
    ((writeOutput host path text).run s).run =
      match s.openFile path .replace with
      | (none, t) => (.error (.cannotOpen path), t)
      | (some handle, t) =>
        (if ((t.write handle (.text text)).flush handle).1 then .ok text.encode.length
          else .error (.cannotWrite path),
          ((t.write handle (.text text)).flush handle).2) := by
  have hopen : ((host.openFile path .replace).run s).run = s.openFile path .replace := rfl
  unfold writeOutput
  rw [StateT.run_bind, Id.run_bind, hopen]
  rcases s.openFile path .replace with ⟨_ | handle, t⟩
  · rfl
  · have hflush : ((host.flush handle).run (t.write handle (.text text))).run =
        (t.write handle (.text text)).flush handle := rfl
    have hwrite : ((host.write handle (.text text)).run t).run = ((), t.write handle (.text text)) :=
      rfl
    simp only [StateT.run_bind, Id.run_bind, hwrite, hflush]
    split
    · rfl
    · rfl

theorem altersOnly_writeOutput (path : String) (text : Text) (s : Machine) :
    AltersOnly (fun key => s.disk.locate path = .file key) s
      ((writeOutput host path text).run s).run.2 := by
  obtain ⟨halters, hopened⟩ := s.openFile_spec path .replace
  rw [run_writeOutput]
  generalize s.openFile path .replace = r at halters hopened
  rcases r with ⟨_ | handle, t⟩
  · exact halters
  · have hwrite := (hopened handle rfl).altersOnly_write (.text text)
    exact (halters.trans hwrite).trans ((hopened handle rfl).later hwrite.keys).altersOnly_flush

/-- A file takes all of the text. -/
theorem writeOutput_of_file (h : s.disk.locate path = .file key) (text : Text) :
    ((writeOutput host path text).run s).run.1 = .ok text.encode.length ∧
      ((writeOutput host path text).run s).run.2.disk.files.find? key =
        some (Piece.text text).bytes := by
  obtain ⟨hhandle, hcarries⟩ := carries_openFile h
  rw [run_writeOutput]
  generalize s.openFile path .replace = r at hhandle hcarries
  obtain ⟨_, t⟩ := r
  obtain rfl := hhandle
  obtain ⟨hflushed, hfile⟩ := (hcarries.write (.text text)).flush
  rw [ByteArray.empty_append] at hfile
  exact ⟨if_pos hflushed, hfile⟩

/-- Where there is no file, no text can be written. -/
theorem writeOutput_of_no_file (htext : text ≠ []) (h : ∀ key, s.disk.locate path ≠ .file key) :
    ∃ e, ((writeOutput host path text).run s).run.1 = .error e := by
  rw [run_writeOutput]
  cases hlocate : s.disk.locate path with
  | refused =>
    have hopen : s.openFile path .replace = (none, s) := by
      unfold openFile
      rw [hlocate]
    rw [hopen]
    exact ⟨_, rfl⟩
  | full =>
    obtain ⟨hhandle, hheld⟩ := holdsBack_openFile hlocate .replace
    generalize s.openFile path .replace = r at hhandle hheld
    obtain ⟨_, t⟩ := r
    obtain rfl := hhandle
    have hflush := (hheld.write (.text text)).flush
    rw [ByteArray.empty_append, Piece.isEmpty_bytes_text htext] at hflush
    exact ⟨_, if_neg (Bool.eq_false_iff.1 hflush)⟩
  | file key => exact absurd hlocate (h key)

end Tool

end GenericIR
