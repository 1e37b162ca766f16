import ColumnSampling.Proofs.Inclusion

/-!
# What the root of a header binds

The proposer signs the root of a header, a tree of five leaves. One of these is the root of the
body, a tree of thirteen leaves, and two of these are again roots: of the randao reveal and of the
list of commitments. Each level binds the one below, so a signed root leaves no choice of the block:
whoever finds another block with the same root has found two inputs with one digest.
-/

namespace ColumnSampling

variable {inputs : List ByteArray}

theorem Signature.bytes_eq (s : Signature) :
    s.bytes = s.bytes.extract 0 64 ++ s.bytes.extract 64 96 := by
  have hsize : s.bytes.size = 96 := s.size_eq
  rw [ByteArray.extract_append_extract]
  simpa [hsize] using (ByteArray.extract_zero_size (b := s.bytes)).symm

theorem Signature.root_inj (free : ¬ Sha256.Collision inputs) {s s' : Signature}
    (h : s.rootInputs ⊆ inputs) (h' : s'.rootInputs ⊆ inputs) (same : s.root = s'.root) :
    s = s' := by
  simp only [Signature.rootInputs, List.cons_subset] at h h'
  obtain ⟨hlow, hhigh, htop, -⟩ := h
  obtain ⟨hlow', hhigh', htop', -⟩ := h'
  obtain ⟨low, high⟩ := hashPair_inj free htop htop' same
  have low := Sha256.digest_inj free hlow hlow' low
  have high := Sha256.digest_inj free hhigh hhigh' high
  rw [ByteArray.append_left_inj] at high
  apply FixedBytes.ext
  rw [Signature.bytes_eq s, Signature.bytes_eq s', low, high]

theorem Merkle.numberLeaf_word_inj {m n : UInt64}
    (h : Merkle.numberLeaf m.toNat = Merkle.numberLeaf n.toNat) : m = n := by
  have small : ∀ k : UInt64, k.toNat < 256 ^ 32 := fun k => k.toNat_lt.trans (by norm_num)
  exact UInt64.toNat_inj.mp (Merkle.numberLeaf_inj (small m) (small n) h)

namespace Header

variable {h h' : Header}

/-- What is hashed for the root of a header. -/
def rootInputs (h : Header) : List ByteArray := Merkle.climbInputs 3 (.zero 32) h.leaves

theorem root_inj (free : ¬ Sha256.Collision inputs) (hinputs : h.rootInputs ⊆ inputs)
    (hinputs' : h'.rootInputs ⊆ inputs) (same : h.root = h'.root) : h = h' := by
  have fits : h.leaves.length ≤ Merkle.capacity 3 := Nat.le_of_ble_eq_true rfl
  have hleaves : h.leaves = h'.leaves := Merkle.root_inj free rfl fits hinputs hinputs' same
  simp only [leaves, List.cons.injEq, and_true] at hleaves
  obtain ⟨slot, proposer, parent, state, body⟩ := hleaves
  exact Header.ext (Merkle.numberLeaf_word_inj slot) (Merkle.numberLeaf_word_inj proposer)
    parent state body

end Header

namespace Body

variable {b b' : Body} {depth : ℕ} {root : Root}

/-- The leaves of a body whose list of commitments has the root `list`. -/
def fields (b : Body) (list : Root) : List Root :=
  [b.randaoReveal.root, b.roots.eth1Data, b.roots.graffiti, b.roots.proposerSlashings,
    b.roots.attesterSlashings, b.roots.attestations, b.roots.deposits, b.roots.voluntaryExits,
    b.roots.syncAggregate, b.roots.executionPayload, b.roots.blsToExecutionChanges, list,
    b.roots.executionRequests]

@[simp] theorem length_fields (b : Body) (list : Root) : (b.fields list).length = 13 := rfl

theorem root_eq_ok : b.root depth = .ok root ↔
    ∃ list, Commitment.listRoot b.commitments depth = .ok list ∧
      b.leaves depth = .ok (b.fields list) ∧
      Merkle.root (b.fields list) blockBodyTreeDepth = root := by
  unfold Body.root
  rw [Outcome.bind_eq_ok]
  constructor
  · rintro ⟨nodes, hnodes, hroot⟩
    obtain ⟨list, hlist, h⟩ := Outcome.bind_eq_ok.mp hnodes
    obtain rfl : b.fields list = nodes := Except.ok.inj h
    exact ⟨list, hlist, hnodes, Except.ok.inj hroot⟩
  · rintro ⟨list, -, hnodes, hroot⟩
    exact ⟨_, hnodes, congrArg Except.ok hroot⟩

theorem root_inj (free : ¬ Sha256.Collision inputs) (small : Merkle.capacity depth < 256 ^ 32)
    (hb : b.root depth = .ok root) (hb' : b'.root depth = .ok root)
    (h : b.rootInputs depth ⊆ inputs) (h' : b'.rootInputs depth ⊆ inputs) : b = b' := by
  obtain ⟨list, hlist, hnodes, hroot⟩ := root_eq_ok.mp hb
  obtain ⟨list', hlist', hnodes', hroot'⟩ := root_eq_ok.mp hb'
  simp only [rootInputs, hnodes, hnodes', List.append_subset] at h h'
  obtain ⟨⟨reveal, commitments⟩, climb⟩ := h
  obtain ⟨⟨reveal', commitments'⟩, climb'⟩ := h'
  have hlength : (b.fields list).length = (b'.fields list').length := by simp
  have fits : (b.fields list).length ≤ Merkle.capacity blockBodyTreeDepth := by
    rw [length_fields]
    decide
  have hfields : b.fields list = b'.fields list' :=
    Merkle.root_inj free hlength fits climb climb' (hroot.trans hroot'.symm)
  simp only [fields, List.cons.injEq, and_true] at hfields
  obtain ⟨hreveal, eth1, graffiti, proposer, attester, attestations, deposits, exits, sync, payload,
    changes, rfl, requests⟩ := hfields
  apply Body.ext
  · exact Signature.root_inj free reveal reveal' hreveal
  · exact BodyRoots.ext eth1 graffiti proposer attester attestations deposits exits sync payload
      changes requests
  · exact Commitment.listRoot_inj free small hlist hlist' commitments commitments'

end Body

namespace SignedBlock

variable {b b' : SignedBlock} {depth : ℕ} {header header' : SignedHeader}

/-- What is hashed for the root that the proposer of a block signs. -/
def signingInputs (b : SignedBlock) (depth : Nat) : List ByteArray :=
  b.message.body.rootInputs depth ++
    match b.header depth with
    | .error _ => []
    | .ok header => header.message.rootInputs

theorem message_header (h : b.header depth = .ok header) :
    b.message.header depth = .ok header.message := by
  obtain ⟨message, hmessage, h⟩ := Outcome.bind_eq_ok.mp h
  obtain rfl := Except.ok.inj h
  exact hmessage

theorem message_inj (free : ¬ Sha256.Collision inputs) (small : Merkle.capacity depth < 256 ^ 32)
    (hb : b.header depth = .ok header) (hb' : b'.header depth = .ok header')
    (h : b.signingInputs depth ⊆ inputs) (h' : b'.signingInputs depth ⊆ inputs)
    (same : header.signingRoot = header'.signingRoot) : b.message = b'.message := by
  simp only [signingInputs, hb, hb', List.append_subset] at h h'
  have hheader : header.message = header'.message := Header.root_inj free h.2 h'.2 same
  obtain ⟨hroot, slot, proposer, parent, state, -⟩ := header_eq_ok.mp hb
  obtain ⟨hroot', slot', proposer', parent', state', -⟩ := header_eq_ok.mp hb'
  rw [hheader] at hroot slot proposer parent state
  have hbody := Body.root_inj free small hroot hroot' h.1 h'.1
  exact Block.ext (slot.symm.trans slot') (proposer.symm.trans proposer')
    (parent.symm.trans parent') (state.symm.trans state') hbody

/--
Two blocks whose lists of commitments fit the tree have headers, and the roots of these are the same
exactly if the blocks are: in slot, proposer, both roots, the randao reveal, every field that is
kept as a root, and the list of commitments. That equal roots mean equal blocks holds unless two of
the inputs hashed for them collide.
-/
theorem signingRoot_eq_iff_message_eq (hdepth : depth ≤ 63) (b b' : SignedBlock)
    (fits : b.commitments.length ≤ 2 ^ depth) (fits' : b'.commitments.length ≤ 2 ^ depth) :
    ∃ header header', b.header depth = .ok header ∧ b'.header depth = .ok header' ∧
      (b.message = b'.message → header.signingRoot = header'.signingRoot) ∧
      (¬ Sha256.Collision (b.signingInputs depth ++ b'.signingInputs depth) →
        header.signingRoot = header'.signingRoot → b.message = b'.message) := by
  obtain ⟨header, hheader⟩ := exists_header fits
  obtain ⟨header', hheader'⟩ := exists_header fits'
  have small : Merkle.capacity depth < 256 ^ 32 :=
    calc 2 ^ depth ≤ 2 ^ 63 := Nat.pow_le_pow_right (by norm_num) hdepth
      _ < 256 ^ 32 := by norm_num
  refine ⟨header, header', hheader, hheader', ?_, ?_⟩
  · intro same
    have hmessage := message_header hheader
    rw [same, message_header hheader'] at hmessage
    exact congrArg Header.root (Except.ok.inj hmessage).symm
  · intro free same
    exact message_inj free small hheader hheader' (List.subset_append_left _ _)
      (List.subset_append_right _ _) same

/--
Swapping two commitments changes the root, and so does dropping one; another signature of the
proposer does not.
-/
theorem signingRoot_of_two_commitments :
    let one : Commitment := .replicate 48 1
    let two : Commitment := .replicate 48 2
    let block (commitments : List Commitment) (signature : Signature) : SignedBlock :=
      { message := { slot := 7, body := { commitments := commitments } }, signature := signature }
    let b := block [one, two] (.replicate 96 9)
    ∃ header, b.header 12 = .ok header ∧
      (∃ header', (block [one, two] (.replicate 96 8)).header 12 = .ok header' ∧
        header' ≠ header ∧ header'.signingRoot = header.signingRoot) ∧
      ∀ commitments ∈ [[two, one], [one]],
        let b' := block commitments (.replicate 96 9)
        ∃ header', b'.header 12 = .ok header' ∧
          (¬ Sha256.Collision (b'.signingInputs 12 ++ b.signingInputs 12) →
            header'.signingRoot ≠ header.signingRoot) := by
  intro one two block b
  have hdepth : 12 ≤ 63 := by decide
  have fits (commitments : List Commitment) (signature : Signature)
      (h : commitments.length ≤ 2) : (block commitments signature).commitments.length ≤ 2 ^ 12 :=
    h.trans (by decide)
  have two_le : [one, two].length ≤ 2 := le_rfl
  obtain ⟨header, resigned, hheader, hresigned, keeps, -⟩ :=
    signingRoot_eq_iff_message_eq hdepth b (block [one, two] (.replicate 96 8))
      (fits _ _ two_le) (fits _ _ two_le)
  refine ⟨header, hheader, ⟨resigned, hresigned, ?_, (keeps rfl).symm⟩, ?_⟩
  · rintro rfl
    obtain ⟨-, -, -, -, -, nine⟩ := header_eq_ok.mp hheader
    obtain ⟨-, -, -, -, -, eight⟩ := header_eq_ok.mp hresigned
    exact absurd (nine.symm.trans eight) (by decide)
  · intro commitments hmem b'
    have hlength : commitments.length ≤ 2 := by
      rcases List.mem_pair.mp hmem with rfl | rfl <;> simp
    obtain ⟨header', own, hheader', hown, -, binds⟩ :=
      signingRoot_eq_iff_message_eq hdepth b' b (fits _ _ hlength) (fits _ _ two_le)
    obtain rfl : header = own := Except.ok.inj (hheader.symm.trans hown)
    refine ⟨header', hheader', fun free hroot => ?_⟩
    have hcommitments : commitments = [one, two] := congrArg (·.body.commitments) (binds free hroot)
    subst hcommitments
    exact absurd hmem (by decide)

end SignedBlock

end ColumnSampling
