import ColumnSampling.Proofs.Custody.Columns
import ColumnSampling.Proofs.Custody.Sampling

/-!
# Growing custody

A node that raises its count keeps all that it kept before. Both walks start at its own id, and the
longer one goes on where the shorter one stopped. A count of all groups takes no walk, but there is
no group that it leaves out. Columns and subnets follow their groups, however the columns are dealt.
-/

namespace ColumnSampling

namespace Custody

variable {id : NodeId} {p : Parameters} {total m n few many : ℕ} {small large : List ℕ}

section Groups

theorem candidates_mono (h : m ≤ n) : candidates id total m ⊆ candidates id total n :=
  Finset.image_subset_image (Finset.range_mono h)

theorem Sampled.subset (hsmall : Sampled id p few (.ok small))
    (hlarge : Sampled id p many (.ok large)) (h : few ≤ many) : small ⊆ large := by
  cases hlarge with
  | all =>
    obtain ⟨-, -, below⟩ := hsmall.of_ok
    exact fun group hgroup => List.mem_range.mpr (below group hgroup)
  | met hmany least =>
    cases hsmall with
    | all hfew => omega
    | met _ least' =>
      -- Whatever suffices for the greater count suffices for the smaller one.
      have earlier := least'.2 (h.trans least.1)
      intro group hgroup
      rw [Finset.mem_sort] at hgroup ⊢
      exact candidates_mono earlier hgroup

theorem groups_subset (hsmall : groups id few p = .ok small) (hlarge : groups id many p = .ok large)
    (h : few ≤ many) : small ⊆ large :=
  (sampled_of_groups hsmall).subset (sampled_of_groups hlarge) h

/-- A walk that meets enough groups for a count has met enough for every smaller one. -/
theorem exists_groups_of_le (hlarge : groups id many p = .ok large) (hmany : many < p.groups)
    (h : few ≤ many) : ∃ small, groups id few p = .ok small := by
  cases sampled_of_groups hlarge with
  | all hall => omega
  | met _ least =>
    obtain ⟨n, hn, least'⟩ := exists_isLeast (h.trans least.1)
    exact ⟨_, groups_of_isLeast (h.trans_lt hmany) least' hn⟩

end Groups

section Columns

variable {columns columns' found found' : List ℕ}

theorem columns_subset (h : small ⊆ large) (below : ∀ group ∈ large, group < p.groups)
    (hsmall : Custody.columns small p = .ok columns)
    (hlarge : Custody.columns large p = .ok columns') : columns ⊆ columns' := by
  rw [columns_of_lt fun group hgroup => below group (h hgroup)] at hsmall
  rw [columns_of_lt below] at hlarge
  rw [← Except.ok.inj hsmall, ← Except.ok.inj hlarge]
  intro c hc
  rw [Ascending.mem_ofList, List.mem_flatMap] at hc ⊢
  obtain ⟨group, hgroup, hdealt⟩ := hc
  exact ⟨group, h hgroup, hdealt⟩

theorem mem_subnets (h : subnets columns p = .ok found) {subnet : ℕ} :
    subnet ∈ found ↔ ∃ c ∈ columns, subnetOfColumn c p = .ok subnet := by
  obtain ⟨answers, hanswers, hfound⟩ := Outcome.bind_eq_ok.mp h
  rw [← Except.ok.inj hfound, Ascending.mem_ofList]
  constructor
  · exact Outcome.exists_of_mem_mapM hanswers
  · rintro ⟨c, hc, hsubnet⟩
    exact Outcome.mem_of_mapM hanswers hc hsubnet

theorem subnets_subset (h : columns ⊆ columns') (hsmall : subnets columns p = .ok found)
    (hlarge : subnets columns' p = .ok found') : found ⊆ found' := by
  intro subnet hsubnet
  obtain ⟨c, hc, hanswer⟩ := (mem_subnets hsmall).mp hsubnet
  exact (mem_subnets hlarge).mpr ⟨c, h hc, hanswer⟩

/-- Without subnets only the empty list has an answer. -/
theorem exists_subnets_of_subset (h : columns ⊆ columns')
    (hlarge : subnets columns' p = .ok found') : ∃ found, subnets columns p = .ok found := by
  by_cases hcount : p.subnetCount = 0
  · cases columns' with
    | nil =>
      obtain rfl := List.subset_nil.mp h
      exact ⟨_, hlarge⟩
    | cons c rest =>
      rw [subnets, List.mapM_cons, subnetOfColumn, if_pos hcount] at hlarge
      cases hlarge
  · exact exists_subnets hcount columns

end Columns

end Custody

namespace PeerCustody

variable {id : NodeId} {p : Parameters} {few many : ℕ}

theorem compute_subset {small large : PeerCustody} (hsmall : compute id few p = .ok small)
    (hlarge : compute id many p = .ok large) (h : few ≤ many) :
    small.groups ⊆ large.groups ∧ small.columns ⊆ large.columns ∧
      small.subnets ⊆ large.subnets := by
  obtain ⟨hgroups, hcolumns, hsubnets⟩ := compute_eq_ok.mp hsmall
  obtain ⟨hgroups', hcolumns', hsubnets'⟩ := compute_eq_ok.mp hlarge
  obtain ⟨-, -, below⟩ := (Custody.sampled_of_groups hgroups').of_ok
  have groups := Custody.groups_subset hgroups hgroups' h
  have columns := Custody.columns_subset groups below hcolumns hcolumns'
  exact ⟨groups, columns, Custody.subnets_subset columns hsubnets hsubnets'⟩

theorem exists_compute_of_le {large : PeerCustody} (hlarge : compute id many p = .ok large)
    (hmany : many < p.groups) (h : few ≤ many) : ∃ small, compute id few p = .ok small := by
  obtain ⟨hgroups', hcolumns', hsubnets'⟩ := compute_eq_ok.mp hlarge
  obtain ⟨-, -, below⟩ := (Custody.sampled_of_groups hgroups').of_ok
  obtain ⟨groups, hgroups⟩ := Custody.exists_groups_of_le hgroups' hmany h
  have hsub := Custody.groups_subset hgroups hgroups' h
  have hcolumns := Custody.columns_of_lt fun group hgroup => below group (hsub hgroup)
  obtain ⟨subnets, hsubnets⟩ := Custody.exists_subnets_of_subset
    (Custody.columns_subset hsub below hcolumns hcolumns') hsubnets'
  exact ⟨⟨groups, _, subnets⟩, compute_eq_ok.mpr ⟨hgroups, hcolumns, hsubnets⟩⟩

/--
With a greater count a node keeps the groups of a smaller one, their columns and their subnets, also
if it then keeps all groups. Short of all groups, what can be told for a count can be told for every
smaller one.
-/
theorem custody_subset_of_le (id : NodeId) (p : Parameters) (h : few ≤ many) :
    (∀ small large, Custody.groups id few p = .ok small →
      Custody.groups id many p = .ok large → small ⊆ large) ∧
    (∀ small large, compute id few p = .ok small → compute id many p = .ok large →
      small.groups ⊆ large.groups ∧ small.columns ⊆ large.columns ∧
        small.subnets ⊆ large.subnets) ∧
    (many < p.groups →
      (∀ large, Custody.groups id many p = .ok large →
        ∃ small, Custody.groups id few p = .ok small) ∧
      ∀ large, compute id many p = .ok large → ∃ small, compute id few p = .ok small) := by
  refine ⟨fun _ _ hsmall hlarge => Custody.groups_subset hsmall hlarge h,
    fun _ _ hsmall hlarge => compute_subset hsmall hlarge h, fun hmany => ⟨?_, ?_⟩⟩
  · exact fun _ hlarge => Custody.exists_groups_of_le hlarge hmany h
  · exact fun _ hlarge => exists_compute_of_le hlarge hmany h

/-- On the main network a node with no group, with one and with all of them. -/
theorem custody_subset_of_one_group :
    let id : NodeId := ⟨.replicate 32 7⟩
    ∃ none one all : PeerCustody,
      compute id 0 {} = .ok none ∧ compute id 1 {} = .ok one ∧ compute id 128 {} = .ok all ∧
      one.groups.length = 1 ∧ all.groups = List.range 128 ∧
      (0 ≤ 1 ∧ none.groups ⊆ one.groups ∧ none.columns ⊆ one.columns ∧
        none.subnets ⊆ one.subnets) ∧
      1 ≤ 128 ∧ one.groups ⊆ all.groups ∧ one.columns ⊆ all.columns ∧
        one.subnets ⊆ all.subnets := by
  intro id
  have valid := Parameters.valid_default
  have hgroups : Custody.groups id 1 {} = .ok _ :=
    Custody.groups_of_isLeast (by decide) Custody.isLeast_one (by decide)
  obtain ⟨hlength, -, below⟩ := (Custody.sampled_of_groups hgroups).of_ok
  obtain ⟨one, hone, honegroups, -, -⟩ := compute_of_groups valid hgroups below
  have hrange : Custody.groups id 128 {} = .ok (List.range 128) := by
    rw [Custody.groups, if_neg (by decide), if_pos (by decide)]
    rfl
  obtain ⟨all, hall, hallgroups, -, -⟩ :=
    compute_of_groups valid hrange fun group hgroup => List.mem_range.mp hgroup
  obtain ⟨-, few, lower⟩ := @custody_subset_of_le 0 1 id {} (by decide)
  obtain ⟨none, hnone⟩ := (lower (by decide)).2 one hone
  obtain ⟨-, many, -⟩ := @custody_subset_of_le 1 128 id {} (by decide)
  exact ⟨none, one, all, hnone, hone, hall, honegroups ▸ hlength, hallgroups,
    ⟨by decide, few none one hnone hone⟩, by decide, many one all hone hall⟩

end PeerCustody

end ColumnSampling
