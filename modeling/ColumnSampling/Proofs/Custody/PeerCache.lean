import ColumnSampling.Custody.PeerCache
import ColumnSampling.Proofs.Custody.Columns
import ColumnSampling.Proofs.NodeId

/-!
# Remembered answers are right

A question about a peer is answered from memory or anew. Memory only ever takes in answers that were
computed under the same parameters, and what it drops does no harm; so the answer is the same either
way, as long as no two questions have one key.
-/

namespace ColumnSampling.PeerCache

variable {c : PeerCache} {p : Parameters} {id id' : NodeId} {count count' : ℕ}
  {answer : PeerCustody}

theorem key_inj (small : count < 2 ^ 64) (small' : count' < 2 ^ 64)
    (h : key id count = key id' count') : id = id' ∧ count = count' := by
  have hbytes := congrArg FixedBytes.toList h
  rw [key, key, FixedBytes.toList_ofList, FixedBytes.toList_ofList] at hbytes
  obtain ⟨hid, hcount⟩ := List.append_inj hbytes (by simp)
  exact ⟨NodeId.toList_injective hid, Endian.big_inj small small' hcount⟩

theorem lt_of_compute (h : PeerCustody.compute id count p = .ok answer) : count < 2 ^ 64 := by
  by_contra hlarge
  have hgroups : p.groups < count := p.numberOfCustodyGroups.toNat_lt.trans_le (not_lt.mp hlarge)
  have herror : Custody.groups id count p = .error (.tooLarge count p.groups) := if_pos hgroups
  rw [PeerCustody.compute_of_error herror] at h
  cases h

/-- Every remembered answer is the one that would be computed now to the question of its key. -/
def Sound (c : PeerCache) (p : Parameters) : Prop :=
  ∀ entry ∈ c.entries, ∃ id count, entry.1 = key id count ∧
    PeerCustody.compute id count p = .ok entry.2

theorem sound_empty (capacity : ℕ) : (empty capacity).Sound p :=
  fun _ h => absurd h List.not_mem_nil

theorem Sound.exists_of_find (sound : c.Sound p) {bytes : FixedBytes 40}
    (h : c.find? bytes = some answer) :
    ∃ id count, bytes = key id count ∧ PeerCustody.compute id count p = .ok answer := by
  obtain ⟨before, after, hentries, -⟩ := List.lookup_eq_some_iff.mp h
  exact sound (bytes, answer) (by rw [hentries]; simp)

theorem Sound.compute_of_find (sound : c.Sound p) (small : count < 2 ^ 64)
    (h : c.find? (key id count) = some answer) : PeerCustody.compute id count p = .ok answer := by
  obtain ⟨id', count', hkey, hcompute⟩ := sound.exists_of_find h
  obtain ⟨rfl, rfl⟩ := key_inj small (lt_of_compute hcompute) hkey
  exact hcompute

theorem Sound.touch (sound : c.Sound p) (h : PeerCustody.compute id count p = .ok answer) :
    (c.touch (key id count) answer).Sound p := by
  -- The answers behind the new one are some of the old ones.
  intro entry hentry
  rcases List.mem_cons.mp (List.mem_of_mem_take hentry) with rfl | hold
  · exact ⟨id, count, rfl, h⟩
  · exact sound entry (List.mem_of_mem_filter hold)

theorem Sound.ask_of_error (sound : c.Sound p) (small : count < 2 ^ 64) {cause : CustodyError}
    (h : PeerCustody.compute id count p = .error cause) : c.ask id count p = (.error cause, c) := by
  cases hfind : c.find? (key id count) with
  | some answer =>
    rw [sound.compute_of_find small hfind] at h
    cases h
  | none => simp only [PeerCache.ask, hfind, h]

theorem Sound.ask_of_ok (sound : c.Sound p) (small : count < 2 ^ 64)
    (h : PeerCustody.compute id count p = .ok answer) :
    c.ask id count p =
      (.ok (answer, (c.find? (key id count)).isSome), c.touch (key id count) answer) := by
  cases hfind : c.find? (key id count) with
  | some remembered =>
    rw [sound.compute_of_find small hfind] at h
    obtain rfl := Except.ok.inj h
    simp only [PeerCache.ask, hfind, Option.isSome_some]
  | none => simp only [PeerCache.ask, hfind, h, Option.isSome_none]

theorem Sound.ask_eq (sound : c.Sound p) (small : count < 2 ^ 64) :
    (c.ask id count p).1.map Prod.fst = PeerCustody.compute id count p := by
  cases h : PeerCustody.compute id count p with
  | error cause => rw [sound.ask_of_error small h, Except.map]
  | ok answer => rw [sound.ask_of_ok small h, Except.map]

theorem Sound.ask (sound : c.Sound p) : (c.ask id count p).2.Sound p := by
  cases hfind : c.find? (key id count) with
  | some answer =>
    obtain ⟨id', count', hkey, hcompute⟩ := sound.exists_of_find hfind
    simp only [PeerCache.ask, hfind]
    rw [hkey]
    exact sound.touch hcompute
  | none =>
    cases hcompute : PeerCustody.compute id count p with
    | error cause => simpa only [PeerCache.ask, hfind, hcompute] using sound
    | ok answer =>
      simp only [PeerCache.ask, hfind, hcompute]
      exact sound.touch hcompute

end ColumnSampling.PeerCache
