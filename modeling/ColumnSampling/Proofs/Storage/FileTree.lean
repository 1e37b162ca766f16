import ColumnSampling.Proofs.Outcome
import ColumnSampling.Storage.FileTree
import Mathlib.Tactic

/-!
# What is written into a tree is read back

A walk ends at a place that is given by the names on its way down, whatever detours it took. Writing
a file puts it under a name that no folder has, so every place that was a folder still is one: the
walk to the file takes the same way as before, and finds the file at its end.
-/

namespace ColumnSampling.FileTree

variable {top tree : FileTree} {trail : Trail} {names above : List String} {name m : String}
  {entries : List (String × FileTree)} {content : ByteArray} {path : String}

/-- What is found under names, one folder below the other. -/
def under : FileTree → List String → Option FileTree
  | tree, [] => some tree
  | .file _, _ :: _ => none
  | .folder entries, name :: names => (entries.lookup name).bind (under · names)

/-- Whether a folder is found under names. -/
def HasFolder (top : FileTree) (names : List String) : Prop :=
  ∃ entries, top.under names = some (.folder entries)

/-- A trail that leads down a tree: each of its trees is in the folder before it, under its name. -/
inductive Leads (top : FileTree) : Trail → Prop
  | top : Leads top []
  | down {entries : List (String × FileTree)} {trail : Trail} {name : String} {tree : FileTree}
      (leads : Leads top trail) (folder : trail.last top = .folder entries)
      (found : entries.lookup name = some tree) : Leads top ((name, tree) :: trail)

section Places

theorem under_concat (names : List String) (name : String) :
    top.under (names ++ [name]) = (top.under names).bind fun tree => tree.under [name] := by
  induction names generalizing top with
  | nil => rfl
  | cons n names ih =>
    cases top with
    | file content => rfl
    | folder entries =>
      rw [List.cons_append, under, under, Option.bind_assoc]
      congr 1
      funext tree
      exact ih

theorem under_singleton : (folder entries).under [name] = entries.lookup name := by
  rw [under]
  cases entries.lookup name <;> rfl

theorem Leads.under_names (h : Leads top trail) :
    top.under trail.names = some (trail.last top) := by
  induction h with
  | top => rfl
  | @down entries trail name tree leads folder found ih =>
    have hnames : Trail.names ((name, tree) :: trail) = trail.names ++ [name] := by
      simp [Trail.names]
    rw [hnames, under_concat, ih, Option.bind_some, folder, under_singleton, found]
    rfl

theorem Leads.drop (h : Leads top trail) : Leads top (trail.drop 1) := by
  cases h with
  | top => exact .top
  | down leads => exact leads

end Places

section Insert

theorem lookup_replaced_of_ne (hne : m ≠ name) (tree : FileTree) (l : List (String × FileTree)) :
    (l.map fun entry => if entry.1 = name then (name, tree) else entry).lookup m = l.lookup m := by
  induction l with
  | nil => rfl
  | cons x l ih =>
    by_cases hx : x.1 = name
    · have hmx : (m == x.1) = false := beq_false_of_ne (hx ▸ hne)
      rw [List.map_cons, if_pos hx, List.lookup_cons, beq_false_of_ne hne, List.lookup_cons, hmx,
        ih]
    · rw [List.map_cons, if_neg hx, List.lookup_cons, List.lookup_cons, ih]

theorem lookup_replaced {l : List (String × FileTree)} (tree : FileTree)
    (hany : l.any (·.1 = name) = true) :
    (l.map fun entry => if entry.1 = name then (name, tree) else entry).lookup name =
      some tree := by
  induction l with
  | nil => cases hany
  | cons x l ih =>
    by_cases hx : x.1 = name
    · rw [List.map_cons, if_pos hx, List.lookup_cons_self]
    · have hl : l.any (·.1 = name) = true := by simpa [hx] using hany
      rw [List.map_cons, if_neg hx, List.lookup_cons, beq_false_of_ne (Ne.symm hx)]
      exact ih hl

theorem lookup_eq_none_of_any (hany : ¬ entries.any (·.1 = name) = true) :
    entries.lookup name = none := by
  rw [List.lookup_eq_none_iff]
  intro x hx
  rw [bne_iff_ne]
  rintro rfl
  exact hany (List.any_eq_true.mpr ⟨x, hx, by simp⟩)

theorem lookup_insert (entries : List (String × FileTree)) (name m : String) (tree : FileTree) :
    (insert entries name tree).lookup m = if m = name then some tree else entries.lookup m := by
  unfold insert
  by_cases hm : m = name
  · subst hm
    rw [if_pos rfl]
    split_ifs with hany
    · exact lookup_replaced tree hany
    · rw [List.lookup_append, lookup_eq_none_of_any hany, List.lookup_cons_self]
      rfl
  · rw [if_neg hm]
    split_ifs with hany
    · exact lookup_replaced_of_ne hm tree entries
    · rw [List.lookup_append, List.lookup_cons, beq_false_of_ne hm]
      simp

theorem under_plant (h : top.HasFolder names) :
    (plant tree (names ++ [name]) top).under (names ++ [name]) = some tree := by
  induction names generalizing top with
  | nil =>
    obtain ⟨entries, hentries⟩ := h
    obtain rfl := Option.some.inj hentries
    rw [List.nil_append, plant, under_singleton, lookup_insert, if_pos rfl, plant]
  | cons n names ih =>
    obtain ⟨entries, hentries⟩ := h
    cases top with
    | file content => cases hentries
    | folder children =>
      obtain ⟨child, hchild, hunder⟩ := Option.bind_eq_some_iff.mp hentries
      rw [List.cons_append, plant, under, lookup_insert, if_pos rfl, Option.bind_some, hchild,
        Option.getD_some]
      exact ih ⟨entries, hunder⟩

theorem hasFolder_cons :
    (folder entries).HasFolder (name :: names) ↔
      ∃ child, entries.lookup name = some child ∧ child.HasFolder names := by
  simp only [HasFolder, under, Option.bind_eq_some_iff]
  constructor
  · rintro ⟨children, child, hchild, hunder⟩
    exact ⟨child, hchild, children, hunder⟩
  · rintro ⟨child, hchild, children, hunder⟩
    exact ⟨children, child, hchild, hunder⟩

theorem HasFolder.exists_entries (h : top.HasFolder names) : ∃ entries, top = folder entries := by
  cases top with
  | folder entries => exact ⟨entries, rfl⟩
  | file content =>
    obtain ⟨entries, hentries⟩ := h
    cases names <;> cases hentries

/-- A file in a place where no folder was leaves every folder a folder. -/
theorem HasFolder.plant (hparent : top.HasFolder names) (hfree : ¬ top.HasFolder (names ++ [name]))
    {other : List String} (h : top.HasFolder other) :
    (plant (file content) (names ++ [name]) top).HasFolder other := by
  obtain ⟨children, rfl⟩ := h.exists_entries
  induction names generalizing children other with
  | nil =>
    cases other with
    | nil => exact ⟨_, rfl⟩
    | cons m other =>
      obtain ⟨child, hchild, hunder⟩ := hasFolder_cons.mp h
      have hne : m ≠ name := by
        rintro rfl
        obtain ⟨entries, rfl⟩ := hunder.exists_entries
        exact hfree (hasFolder_cons.mpr ⟨_, hchild, entries, rfl⟩)
      rw [List.nil_append, FileTree.plant]
      refine hasFolder_cons.mpr ⟨child, ?_, hunder⟩
      rw [lookup_insert, if_neg hne, hchild]
  | cons n names ih =>
    cases other with
    | nil => exact ⟨_, rfl⟩
    | cons m other =>
      obtain ⟨child, hchild, hunder⟩ := hasFolder_cons.mp h
      obtain ⟨next, hnext, hbelow⟩ := hasFolder_cons.mp hparent
      rw [List.cons_append, FileTree.plant]
      by_cases hm : m = n
      · subst hm
        obtain rfl := Option.some.inj (hchild.symm.trans hnext)
        obtain ⟨entries, rfl⟩ := hunder.exists_entries
        have hfree' : ¬ (folder entries).HasFolder (names ++ [name]) := fun hfolder =>
          hfree (hasFolder_cons.mpr ⟨_, hchild, hfolder⟩)
        refine hasFolder_cons.mpr ⟨_, ?_, ih entries hbelow hfree' hunder⟩
        rw [lookup_insert, if_pos rfl, hchild, Option.getD_some]
      · refine hasFolder_cons.mpr ⟨child, ?_, hunder⟩
        rw [lookup_insert, if_neg hm, hchild]

end Insert

section Walk

structure IsName (name : String) : Prop where
  ne_empty : name ≠ ""
  ne_dot : name ≠ "."
  ne_dots : name ≠ ".."
  short : name.utf8ByteSize ≤ longestName

/-- Trails of the same names, each down a tree of its own. -/
structure Matches (top top' : FileTree) (trail other : Trail) : Prop where
  leads : Leads top trail
  leads' : Leads top' other
  names : other.map Prod.fst = trail.map Prod.fst

variable {top' : FileTree} {other next final : Trail}

/-- A step stays, goes up or goes down, and always from a folder. -/
theorem step_cases (h : step top trail name = .ok next) :
    ∃ entries, trail.last top = .folder entries ∧
      ((name = "" ∨ name = ".") ∧ next = trail ∨ name = ".." ∧ next = trail.drop 1 ∨
        IsName name ∧ ∃ tree, entries.lookup name = some tree ∧ next = (name, tree) :: trail) := by
  unfold step at h
  split at h
  · cases h
  · next entries hlast =>
    refine ⟨entries, hlast, ?_⟩
    split_ifs at h with hstay hup hlong
    · exact .inl ⟨hstay, (Except.ok.inj h).symm⟩
    · exact .inr (.inl ⟨hup, (Except.ok.inj h).symm⟩)
    · split at h
      · cases h
      · next tree hfound =>
        obtain ⟨hempty, hdot⟩ := not_or.mp hstay
        exact .inr (.inr ⟨⟨hempty, hdot, hup, not_lt.mp hlong⟩, tree, hfound,
          (Except.ok.inj h).symm⟩)

theorem step_stay (folder : trail.last top = .folder entries) (h : name = "" ∨ name = ".") :
    step top trail name = .ok trail := by
  rw [step, folder]
  exact if_pos h

theorem step_up (folder : trail.last top = .folder entries) :
    step top trail ".." = .ok (trail.drop 1) := by
  rw [step, folder]
  rfl

theorem step_down (folder : trail.last top = .folder entries) (h : IsName name)
    (found : entries.lookup name = some tree) :
    step top trail name = .ok ((name, tree) :: trail) := by
  rw [step, folder]
  dsimp only
  rw [if_neg (not_or.mpr ⟨h.ne_empty, h.ne_dot⟩), if_neg h.ne_dots, if_neg (not_lt.mpr h.short),
    found]

theorem Leads.hasFolder (h : Leads top trail) (folder : trail.last top = .folder entries) :
    top.HasFolder trail.names :=
  ⟨entries, by rw [h.under_names, folder]⟩

theorem Matches.exists_folder (hfolders : ∀ names, top.HasFolder names → top'.HasFolder names)
    (h : Matches top top' trail other) (folder : trail.last top = .folder entries) :
    ∃ entries', other.last top' = .folder entries' := by
  obtain ⟨entries', hentries⟩ := hfolders _ (h.leads.hasFolder folder)
  have hnames : other.names = trail.names := by rw [Trail.names, h.names, Trail.names]
  rw [← hnames, h.leads'.under_names] at hentries
  exact ⟨entries', Option.some.inj hentries⟩

/-- What is a folder at the end of a step is also found by the step from the other trail. -/
theorem Matches.step (hfolders : ∀ names, top.HasFolder names → top'.HasFolder names)
    (h : Matches top top' trail other) (hstep : step top trail name = .ok next)
    (folder : next.last top = .folder entries) :
    ∃ next', step top' other name = .ok next' ∧ Matches top top' next next' := by
  obtain ⟨children, hlast, hcases⟩ := step_cases hstep
  obtain ⟨children', hlast'⟩ := h.exists_folder hfolders hlast
  rcases hcases with ⟨hstay, rfl⟩ | ⟨rfl, rfl⟩ | ⟨hname, tree, hfound, rfl⟩
  · exact ⟨other, step_stay hlast' hstay, h⟩
  · refine ⟨other.drop 1, step_up hlast', h.leads.drop, h.leads'.drop, ?_⟩
    rw [List.map_drop, List.map_drop, h.names]
  · have hleads : Leads top ((name, tree) :: trail) := .down h.leads hlast hfound
    obtain ⟨entries', hunder⟩ := hfolders _ (hleads.hasFolder folder)
    have hnames : Trail.names ((name, tree) :: trail) = other.names ++ [name] := by
      simp [Trail.names, h.names]
    rw [hnames, under_concat, h.leads'.under_names, Option.bind_some, hlast',
      under_singleton] at hunder
    refine ⟨_, step_down hlast' hname hunder, hleads, .down h.leads' hlast' hunder, ?_⟩
    rw [List.map_cons, List.map_cons, h.names]

/-- A walk that ends at a folder was at a folder at each name. -/
theorem exists_folder_of_walk (hwalk : names.foldlM (FileTree.step top) trail = .ok final)
    (folder : final.last top = .folder entries) :
    ∃ entries', trail.last top = .folder entries' := by
  cases names with
  | nil =>
    obtain rfl := Except.ok.inj hwalk
    exact ⟨entries, folder⟩
  | cons name names =>
    rw [List.foldlM_cons] at hwalk
    obtain ⟨next, hstep, -⟩ := Outcome.bind_eq_ok.mp hwalk
    obtain ⟨children, hlast, -⟩ := step_cases hstep
    exact ⟨children, hlast⟩

theorem Matches.walk (hfolders : ∀ names, top.HasFolder names → top'.HasFolder names)
    (h : Matches top top' trail other) (hwalk : names.foldlM (FileTree.step top) trail = .ok final)
    (folder : final.last top = .folder entries) :
    ∃ final', names.foldlM (FileTree.step top') other = .ok final' ∧
      Matches top top' final final' := by
  induction names generalizing trail other with
  | nil =>
    obtain rfl := Except.ok.inj hwalk
    exact ⟨other, rfl, h⟩
  | cons name names ih =>
    rw [List.foldlM_cons] at hwalk
    obtain ⟨next, hstep, hrest⟩ := Outcome.bind_eq_ok.mp hwalk
    obtain ⟨children, hlast⟩ := exists_folder_of_walk hrest folder
    obtain ⟨next', hstep', hnext⟩ := h.step hfolders hstep hlast
    obtain ⟨final', hrest', hfinal⟩ := ih hnext hrest
    refine ⟨final', ?_, hfinal⟩
    rw [List.foldlM_cons]
    exact Outcome.bind_eq_ok.mpr ⟨next', hstep', hrest'⟩

end Walk

section Writing

theorem names_of_dropWhile {reversed : List String}
    (hnames : reversed.dropWhile (· = "") = name :: above) (hend : reversed.head? ≠ some "") :
    reversed = name :: above ∧ name ≠ "" := by
  cases reversed with
  | nil => cases hnames
  | cons n rest =>
    have hn : n ≠ "" := fun h => hend (congrArg some h)
    rw [List.dropWhile_cons_of_neg (by simpa using hn)] at hnames
    obtain ⟨rfl, rfl⟩ := List.cons.inj hnames
    exact ⟨rfl, hn⟩

theorem slot_cases {place : Slot} (h : top.slot path = .ok place) (hend : place.slash = false) :
    ∃ above entries, isPath path = true ∧ Path.names path = above ++ [place.name] ∧
      top.walk above = .ok place.folder ∧ place.folder.last top = .folder entries ∧
      IsName place.name ∧ place.taken = entries.lookup place.name := by
  unfold slot at h
  dsimp only at h
  split at h
  · cases h
  next name above hnames =>
  split at h
  · cases h
  next hpath =>
  split at h
  · cases h
  next trail hwalk =>
  split at h
  · cases h
  next entries hlast =>
  split_ifs at h with hname
  obtain rfl := Except.ok.inj h
  obtain ⟨hreverse, hempty⟩ := names_of_dropWhile hnames (of_decide_eq_false hend)
  simp only [not_or, not_lt] at hname
  refine ⟨above.reverse, entries, by simpa using hpath, ?_, hwalk, hlast,
    ⟨hempty, hname.1, hname.2.1, hname.2.2⟩, rfl⟩
  rw [← List.reverse_reverse (Path.names path), hreverse, List.reverse_cons]

theorem write_cases (h : write path content top = (.ok (), top')) :
    ∃ place, top.slot path = .ok place ∧ place.slash = false ∧
      (∀ entries, place.taken ≠ some (.folder entries)) ∧
      top' = place.fill (.file content) top := by
  unfold write at h
  split at h
  · cases h
  · next place hslot =>
    split at h
    · cases h
    · cases h
    · next hslash htaken =>
      exact ⟨place, hslot, hslash, htaken, (Prod.mk.inj h).2.symm⟩

theorem leads_of_walk (hwalk : top.walk names = .ok trail)
    (folder : trail.last top = .folder entries) : Leads top trail := by
  have hstart : Matches top top [] [] := ⟨.top, .top, rfl⟩
  obtain ⟨_, -, htrail⟩ := hstart.walk (fun _ h => h) hwalk folder
  exact htrail.leads

/-- A file in a place where no folder was is at the end of the walk to that place. -/
theorem walk_fill (hwalk : top.walk above = .ok trail) (folder : trail.last top = .folder entries)
    (hname : IsName name) (hfree : ∀ children, entries.lookup name ≠ some (.folder children)) :
    ∃ other, (plant (file content) (trail.names ++ [name]) top).walk (above ++ [name]) =
      .ok ((name, .file content) :: other) := by
  have hleads := leads_of_walk hwalk folder
  have hparent : top.HasFolder trail.names := hleads.hasFolder folder
  have hplace : ¬ top.HasFolder (trail.names ++ [name]) := by
    rintro ⟨children, hchildren⟩
    rw [under_concat, hleads.under_names, Option.bind_some, folder, under_singleton] at hchildren
    exact hfree children hchildren
  have hunder : (plant (file content) (trail.names ++ [name]) top).under (trail.names ++ [name]) =
      some (.file content) := under_plant hparent
  have hfolders : ∀ names, top.HasFolder names →
      (plant (file content) (trail.names ++ [name]) top).HasFolder names :=
    fun names h => hparent.plant hplace h
  generalize plant (file content) (trail.names ++ [name]) top = top' at hunder hfolders ⊢
  have hstart : Matches top top' [] [] := ⟨.top, .top, rfl⟩
  obtain ⟨other, hother, hmatches⟩ := hstart.walk hfolders hwalk folder
  obtain ⟨children, hlast⟩ := hmatches.exists_folder hfolders folder
  have hfound : children.lookup name = some (.file content) := by
    have hnames : trail.names = other.names := by rw [Trail.names, ← hmatches.names, Trail.names]
    rwa [hnames, under_concat, hmatches.leads'.under_names, Option.bind_some, hlast,
      under_singleton]
      at hunder
  refine ⟨other, ?_⟩
  rw [FileTree.walk, List.foldlM_append, hother]
  refine Outcome.bind_eq_ok.mpr ⟨other, rfl, ?_⟩
  rw [List.foldlM_cons, step_down hlast hname hfound]
  rfl

theorem content_write (h : write path content top = (.ok (), top')) :
    top'.content? path = some content := by
  obtain ⟨place, hslot, hend, hfree, rfl⟩ := write_cases h
  obtain ⟨above, entries, hpath, hnames, hwalk, hlast, hname, htaken⟩ := slot_cases hslot hend
  rw [htaken] at hfree
  obtain ⟨other, hother⟩ : ∃ other, (place.fill (.file content) top).walk (above ++ [place.name]) =
    .ok ((place.name, .file content) :: other) := walk_fill hwalk hlast hname hfree
  have hne : path ≠ "" := by
    rintro rfl
    have hempty : Path.names "" = [""] := by decide
    rw [hempty] at hnames
    have hlastName := congrArg List.getLast? hnames
    rw [List.getLast?_concat] at hlastName
    exact hname.ne_empty (Option.some.inj hlastName).symm
  rw [content?, find?, if_pos ⟨hne, hpath⟩, hnames, hother]
  rfl

theorem exists_write (h : write path content top = (.ok (), top')) (other : ByteArray) :
    ∃ written, write path other top = (.ok (), written) := by
  obtain ⟨place, hslot, hend, hfree, -⟩ := write_cases h
  refine ⟨place.fill (.file other) top, ?_⟩
  rw [write, hslot]
  dsimp only
  split
  · next hfolder => exact absurd hfolder (hfree _)
  · next hslash _ =>
    rw [hend] at hslash
    cases hslash
  · rfl

end Writing

end ColumnSampling.FileTree
