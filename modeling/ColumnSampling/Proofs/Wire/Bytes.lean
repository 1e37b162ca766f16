import ColumnSampling.Proofs.Bytes.Hex
import ColumnSampling.Proofs.Json.Form
import ColumnSampling.Wire.Bytes

/-!
# The forms of byte strings are lawful

Hexadecimal text and arrays of numbers are read back as the bytes they were written for. The
contents of blobs and cells are so at every length.
-/

namespace ColumnSampling

theorem NodeId.ofText_toText (id : NodeId) : ofText id.toText = .ok id := by
  have htext : id.toText = String.ofList ('0' :: 'x' :: Hex.encodeList id.toList) := by
    apply String.toList_inj.mp
    simp [toText, Hex.encode, toList, FixedBytes.toList]
  have hbytes : ofText id.toText =
      if h : id.toList.length = 32 then .ok ⟨.ofList id.toList h⟩
      else .error (.length id.toList.length) := by
    rw [htext, ofText, Hex.utf8_marked, ofTextBytes, dropMark, Hex.decodeList_encodeList]
  rw [hbytes, dif_pos id.length_toList]
  exact congrArg (fun raw => Except.ok (NodeId.mk raw)) (FixedBytes.ofList_toList id.raw _)

namespace JsonForm

theorem dropHexMark_marked (digits : List UInt8) : dropHexMark (48 :: 120 :: digits) = digits := rfl

theorem readBytes_writeHex (bytes : List UInt8) : readBytes (writeHex bytes) = some bytes := by
  simp only [writeHex, Json.text, readBytes, Hex.utf8_marked, dropHexMark_marked,
    Hex.decodeList_encodeList]
  rfl

instance lawful_data : data.Lawful where
  plain _ := rfl
  read_write bytes := by
    simp only [data, readBytes_writeHex]
    rfl

instance lawful_root : root.Lawful where
  plain _ := rfl
  read_write r := by
    have hread : readBytes (dropPassable (writeHex r.toList)) = some r.toList :=
      readBytes_writeHex r.toList
    simp only [root, hread, Option.bind_some]
    rw [dif_pos r.length_toList, FixedBytes.ofList_toList]

instance lawful_fixed (n : ℕ) : (fixed n).Lawful where
  plain b := itemsPlain_map_write byte b.toList
  read_write b := by
    have hread : byte.readAll (b.toList.map byte.write) [] = some b.toList :=
      readAll_map_write byte b.toList []
    simp only [fixed, hread, Option.bind_some]
    rw [dif_pos b.length_toList, FixedBytes.ofList_toList]

instance lawful_commitment : commitment.Lawful := lawful_fixed 48

instance lawful_proof : proof.Lawful := lawful_fixed 48

instance lawful_signature : signature.Lawful := lawful_fixed 96

instance lawful_nodeId : nodeId.Lawful where
  plain _ := rfl
  read_write id := by
    simp only [nodeId, Json.text, NodeId.ofText_toText]
    rfl

instance lawful_blob : blob.Lawful := by
  refine lawful_record (by decide) (fun _ => rfl) ?_ ?_
  · intro b
    simp
  · intro b field given
    simp only [List.zip_cons_cons, List.forall_mem_cons] at given
    simp [given]

instance lawful_cell : cell.Lawful := by
  refine lawful_record (by decide) (fun _ => rfl) ?_ ?_
  · intro c
    simp
  · intro c field given
    simp only [List.zip_cons_cons, List.forall_mem_cons] at given
    simp [given]

end JsonForm

end ColumnSampling
