import GuestStorage.Proofs.Memory.Stored
import GuestStorage.Session.File

namespace GuestStorage

namespace Bytes

theorem overwrite_append (bytes : Bytes) (start : Nat) (data more : Bytes) :
    (overwrite bytes start data).overwrite (start + data.length) more = overwrite bytes start (data ++ more) := by
  have covered : (overwrite bytes start data).resize (start + data.length) = resize bytes start ++ data := by
    have long : start + data.length ≤ (overwrite bytes start data).length := by
      rw [length_overwrite]
      omega
    have whole : (resize bytes start ++ data).length = start + data.length := by
      rw [List.length_append, length_resize]
    rw [resize, Nat.sub_eq_zero_of_le long, overwrite, ← whole, List.take_left]
    exact List.append_nil _
  have rest : (overwrite bytes start data).drop (start + data.length + more.length) =
      bytes.drop (start + (data ++ more).length) := by
    have whole : (resize bytes start ++ data).length = start + data.length := by
      rw [List.length_append, length_resize]
    rw [overwrite, ← List.drop_drop, ← whole, List.drop_left, List.drop_drop, whole, List.length_append,
      Nat.add_assoc]
  rw [overwrite, covered, rest, overwrite, List.append_assoc (resize bytes start)]

theorem slice_overwrite_of_le (bytes : Bytes) (start : Nat) (data : Bytes) {count : Nat}
    (within : count ≤ data.length) : (overwrite bytes start data).slice start count = data.take count := by
  have cut : (overwrite bytes start data).drop start = data ++ bytes.drop (start + data.length) := by
    rw [overwrite, List.append_assoc]
    exact List.drop_left' (length_resize bytes start)
  rw [slice, cut, List.take_append_of_le_length within]

theorem resize_of_le {bytes : Bytes} {length : Nat} (fits : bytes.length ≤ length) :
    bytes.resize length = bytes ++ zeros (length - bytes.length) := by rw [resize, List.take_of_length_le fits]

end Bytes

namespace Memory.Store

variable {s : Store} {file : FileId}

theorem held_of_fileWritable (writable : s.fileWritable file = true) : (s.fileNode? file).isSome := by
  cases node : s.fileNode? file with
  | none => simp [fileWritable, node] at writable
  | some node => rfl

theorem write_eq (writable : s.fileWritable file = true) (offset : Nat) (data : Bytes)
    (short : offset + data.length < endLimit) :
    ∃ after, s.write file offset data = (data.length, after) ∧
      FillsFile s after file (·.overwrite offset data) :=
  ⟨_, by rw [write, if_pos (by simp [writable, short])], modifyFile_fills s file (·.overwrite offset data)⟩

end Memory.Store

namespace Session.OpenFile

open Memory GuestStorage.Tree

variable {s : Store} {file : FileId} {extent : Extent} {bytes written : Bytes}

theorem pad_writes (rounds : Nat) (held : (s.fileNode? file).isSome)
    (holds : s.fileBytes file = bytes.overwrite extent.offset written) :
    ∃ zeros after, pad (FileView.direct file) extent rounds s written.length = (written.length + zeros, after) ∧
      after.fileBytes file = bytes.overwrite extent.offset (written ++ Bytes.zeros zeros) := by
  induction rounds generalizing s written with
  | zero => exact ⟨0, s, rfl, by simpa [Bytes.zeros] using holds⟩
  | succ rounds ih =>
    rw [pad]
    split
    · generalize min (extent.length - written.length) paddingChunk = chunk
      rcases s.write_fills file (extent.offset + written.length) (Bytes.zeros chunk) with
        refused | ⟨after, wrote, effect⟩
      · have taken : (FileView.direct file).write s (extent.offset + written.length) (Bytes.zeros chunk) =
            (0, s) := refused
        simp only [taken]
        split
        · exact ⟨0, s, rfl, by simpa [Bytes.zeros] using holds⟩
        · exact ih held holds
      · have taken : (FileView.direct file).write s (extent.offset + written.length) (Bytes.zeros chunk) =
            (chunk, after) := by
          rw [FileView.write, if_neg (by simp [FileView.direct])]
          exact wrote.trans (by rw [Bytes.length_zeros])
        have longer : after.fileBytes file =
            bytes.overwrite extent.offset (written ++ Bytes.zeros chunk) := by
          rw [effect.fileBytes held, if_pos rfl, holds, Bytes.overwrite_append]
        have still : (after.fileNode? file).isSome := by
          rw [effect.fileNode, Option.isSome_map]
          exact held
        simp only [taken, Nat.lt_irrefl, if_false]
        obtain ⟨more, last, padded, filled⟩ := ih still longer
        refine ⟨chunk + more, last, ?_, ?_⟩
        · rw [List.length_append, Bytes.length_zeros] at padded
          rw [padded, Nat.add_assoc]
        · rw [filled, List.append_assoc, Bytes.zeros, Bytes.zeros, Bytes.zeros, List.replicate_append_replicate]
    · exact ⟨0, s, rfl, by simpa [Bytes.zeros] using holds⟩

theorem endLimit_of_check {offset length : Int64} (checked : Extent.check offset length = .ok extent) :
    extent.offset + extent.length < Store.endLimit := by
  obtain ⟨-, -, rfl⟩ := Extent.check_eq_ok_iff.mp checked
  have first := offset.toInt_lt
  have second := length.toInt_lt
  simp only [Store.endLimit]
  omega

theorem write_ok {opened : OpenFile FileId} {offset length : Int64} {data : Bytes} {after : Store}
    (wrote : opened.write s offset length data = (.ok (), after)) :
    ∃ extent, Extent.check offset length = .ok extent ∧ data.length ≤ extent.length ∧
      after.fileBytes opened.file.node =
        (s.fileBytes opened.file.node).overwrite extent.offset (data.resize extent.length) := by
  obtain ⟨⟨file, readOnly⟩, mode⟩ := opened
  rw [write] at wrote
  split at wrote
  · cases wrote
  · rename_i extent checked
    split at wrote
    · cases wrote
    · rename_i allowed
      split at wrote
      · cases wrote
      · rename_i fits
        simp only [mayWrite, FileView.isWritable, Bool.not_eq_false, Bool.and_eq_true,
          Bool.not_eq_eq_eq_not, Bool.not_true] at allowed
        obtain ⟨-, rfl, writable⟩ := allowed
        rw [Nat.not_lt] at fits
        have short := endLimit_of_check checked
        obtain ⟨first, sent, effect⟩ := Store.write_eq writable extent.offset data (by omega)
        have held := Store.held_of_fileWritable writable
        have still : (first.fileNode? file).isSome := by
          rw [effect.fileNode, Option.isSome_map]
          exact held
        obtain ⟨more, last, padded, filled⟩ := pad_writes extent.length still
          ((effect.fileBytes held file).trans (if_pos rfl))
        have whole : writePadded s ⟨file, false⟩ extent data = (data.length + more, last) := by
          have taken : (FileView.direct file).write s extent.offset data = (data.length, first) := sent
          show writePadded s (FileView.direct file) extent data = _
          simp only [writePadded, taken, beq_self_eq_true, if_true, padded]
        simp only [whole] at wrote
        split at wrote
        · rename_i complete
          obtain rfl : last = after := congrArg Prod.snd wrote
          refine ⟨extent, checked, fits, ?_⟩
          rw [filled, Bytes.resize_of_le fits, ← beq_iff_eq.mp complete, Nat.add_sub_cancel_left]
        · cases wrote

theorem setSize_ok {opened : OpenFile FileId} {size : Nat} {after : Store}
    (sized : opened.setSize s size = (.ok (), after)) :
    after.fileBytes opened.file.node = (s.fileBytes opened.file.node).resize size := by
  obtain ⟨⟨file, readOnly⟩, mode⟩ := opened
  rw [setSize] at sized
  split at sized
  · cases sized
  · rename_i allowed
    simp only [mayWrite, FileView.isWritable, Bool.not_eq_false, Bool.and_eq_true,
      Bool.not_eq_eq_eq_not, Bool.not_true] at allowed
    obtain ⟨-, rfl, writable⟩ := allowed
    have made : (FileView.direct file).resize s size =
        (true, s.modifyFile file fun node => { node with bytes := node.bytes.resize size }) :=
      if_pos writable
    have taken : FileView.resize s ⟨file, false⟩ size = _ := made
    simp only [taken, Prod.mk.injEq, true_and] at sized
    obtain rfl := sized
    have effect := Store.modifyFile_fills s file (·.resize size)
    exact (effect.fileBytes (Store.held_of_fileWritable writable) file).trans (if_pos rfl)

end Session.OpenFile

end GuestStorage
