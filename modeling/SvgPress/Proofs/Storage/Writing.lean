import SvgPress.Proofs.Storage.Places

/-!
What a write does to a tree of files. It puts a text at one place and leaves every other file and
all directories where they are, so that paths lead where they led before.
-/

namespace SvgPress

namespace FileNode

variable {root node : FileNode} {place names : List String}

theorem lookup_set_entry (name : String) (node : FileNode) (entries : List (String × FileNode))
    (other : String) :
    (setEntry name node entries).lookup other =
      if other = name then some node else entries.lookup other := by
  have hbeq : ∀ {a b : String}, a ≠ b → (a == b) = false := fun h => beq_eq_false_iff_ne.mpr h
  induction entries with
  | nil =>
      by_cases h : other = name
      · simp [setEntry, h]
      · simp [setEntry, List.lookup_cons, h, hbeq h]
  | cons entry entries ih =>
      obtain ⟨n, old⟩ := entry
      by_cases hn : n = name
      · by_cases h : other = name
        · simp [setEntry, hn, h]
        · simp [setEntry, hn, List.lookup_cons, h, hbeq h]
      · by_cases hother : other = n
        · simp [setEntry, hn, hother]
        · simp [setEntry, hn, List.lookup_cons, hbeq hother, ih]

/-- What is put somewhere in a directory is found there. -/
theorem get_put (hdirectory : root.IsDirectory place) (name : String) (node : FileNode) :
    (root.put (place ++ [name]) node).get? (place ++ [name]) = some node := by
  obtain ⟨entries, h⟩ := hdirectory
  induction place generalizing root entries with
  | nil =>
      cases h
      simp [put, get?, lookup_set_entry]
  | cons first place ih =>
      cases root with
      | text content => cases h
      | binary => cases h
      | directory inner =>
          obtain ⟨child, hchild, h⟩ := Option.bind_eq_some_iff.mp h
          simp only [List.cons_append, put, hchild, get?, lookup_set_entry, if_true,
            Option.getD_some, Option.bind_some]
          exact ih entries h

/-- What a thing is, without the entries that it has. -/
def outline : FileNode → FileNode
  | directory _ => directory []
  | other => other

theorem directory_iff_outline :
    root.IsDirectory names ↔ (root.get? names).map outline = some (.directory []) := by
  unfold IsDirectory
  cases root.get? names with
  | none => simp
  | some found => cases found <;> simp [outline]

theorem text_iff_outline {content : String} :
    root.get? names = some (.text content) ↔
      (root.get? names).map outline = some (.text content) := by
  cases root.get? names with
  | none => simp
  | some found => cases found <;> simp [outline]

/-- Below what is no directory there is nothing. -/
theorem get_cons_of_not_directory (hfree : ¬ node.IsDirectory []) (name : String)
    (names : List String) : node.get? (name :: names) = none := by
  cases node with
  | directory entries => exact absurd ⟨entries, rfl⟩ hfree
  | text content => rfl
  | binary => rfl

/-- A text that is put somewhere changes nothing but the entries of directories elsewhere. -/
theorem outline_get_put {name : String} (hdirectory : root.IsDirectory place)
    (hfree : ¬ root.IsDirectory (place ++ [name])) (hnames : names ≠ place ++ [name])
    (content : String) :
    ((root.put (place ++ [name]) (.text content)).get? names).map outline =
      (root.get? names).map outline := by
  obtain ⟨entries, hentries⟩ := hdirectory
  induction place generalizing root names entries with
  | nil =>
      cases hentries
      rw [List.nil_append] at hnames hfree ⊢
      cases names with
      | nil =>
          rw [put]
          rfl
      | cons first names =>
          by_cases hfirst : first = name
          · subst hfirst
            have hrest : names ≠ [] := fun hnil => hnames (by rw [hnil])
            obtain ⟨second, names, rfl⟩ := List.exists_cons_of_ne_nil hrest
            cases hchild : entries.lookup first with
            | none => simp [put, get?, lookup_set_entry, hchild]
            | some child =>
                have hchildfree : ¬ child.IsDirectory [] := by
                  rintro ⟨inner, h⟩
                  exact hfree ⟨inner, by simpa [get?, hchild] using h⟩
                simp [put, get?, lookup_set_entry, hchild, get_cons_of_not_directory hchildfree]
          · simp only [put, get?, lookup_set_entry, hfirst, if_false]
  | cons first place ih =>
      cases root with
      | text content => cases hentries
      | binary => cases hentries
      | directory inner =>
          obtain ⟨child, hchild, hbelow⟩ := Option.bind_eq_some_iff.mp hentries
          simp only [List.cons_append, put, hchild, Option.getD_some]
          cases names with
          | nil => rfl
          | cons other names =>
              by_cases hother : other = first
              · subst hother
                simp only [get?, lookup_set_entry, if_true, hchild, Option.bind_some]
                refine ih (fun hinner => hfree ?_) (fun heq => hnames ?_) entries hbelow
                · obtain ⟨entries, hinner⟩ := hinner
                  exact ⟨entries, by
                    simpa only [List.cons_append, get?, hchild, Option.bind_some] using hinner⟩
                · rw [heq, List.cons_append]
              · simp only [get?, lookup_set_entry, hother, if_false]

/-- No directory is made and none goes. -/
theorem directory_put_iff {name : String} (hdirectory : root.IsDirectory place)
    (hfree : ¬ root.IsDirectory (place ++ [name])) (content : String) :
    (root.put (place ++ [name]) (.text content)).IsDirectory names ↔ root.IsDirectory names := by
  by_cases hnames : names = place ++ [name]
  · subst hnames
    refine ⟨fun ⟨entries, h⟩ => ?_, fun h => absurd h hfree⟩
    rw [get_put hdirectory] at h
    cases h
  · rw [directory_iff_outline, directory_iff_outline, outline_get_put hdirectory hfree hnames]

end FileNode

namespace FileTree

variable {tree after : FileTree} {p q : Path} {content : String} {place : List String}

/-- A write that is not refused puts the text where the path leads. -/
theorem write_ok_iff :
    tree.write p content = .ok after ↔ ∃ place, tree.target p = .ok place ∧
      ¬ tree.root.IsDirectory place ∧
      after = { tree with root := tree.root.put place (.text content) } := by
  constructor
  · intro h
    obtain ⟨place, htarget, h⟩ := bind_ok h
    split at h
    · cases h
    · rename_i hplace
      cases h
      exact ⟨place, htarget, fun ⟨entries, hentries⟩ => hplace entries hentries, rfl⟩
  · rintro ⟨place, htarget, hplace, rfl⟩
    unfold write
    simp only [htarget, bind, Except.bind]
    split
    · rename_i entries hentries
      exact absurd ⟨entries, hentries⟩ hplace
    · rfl

theorem is_ok_write_iff : (tree.write p content).isOk ↔
    ∃ place, tree.target p = .ok place ∧ ¬ tree.root.IsDirectory place := by
  constructor
  · intro h
    cases hwrite : tree.write p content with
    | error fault =>
        rw [hwrite] at h
        cases h
    | ok after =>
        obtain ⟨place, htarget, hfree, -⟩ := write_ok_iff.mp hwrite
        exact ⟨place, htarget, hfree⟩
  · rintro ⟨place, htarget, hfree⟩
    rw [write_ok_iff.mpr ⟨place, htarget, hfree, rfl⟩]
    rfl

/-- The place of a file is a name in a directory. -/
theorem place_of_target (h : tree.target p = .ok place) :
    ∃ directory name, place = directory ++ [name] ∧ tree.root.IsDirectory directory := by
  obtain ⟨-, rfl, front, last, ⟨hpieces, hidle, hname, -⟩, hleads⟩ := target_ok_iff.mp h
  exact ⟨_, _, destination_concat hpieces hidle hname, hleads.to_directory⟩

section Written

variable (h : tree.write p content = .ok after)

include h

theorem target_of_write : tree.target p = .ok (tree.destination p) := by
  obtain ⟨place, htarget, -, -⟩ := write_ok_iff.mp h
  obtain ⟨-, rfl, -⟩ := target_ok_iff.mp htarget
  exact htarget

theorem destination_write (q : Path) : after.destination q = tree.destination q := by
  obtain ⟨place, -, -, rfl⟩ := write_ok_iff.mp h
  rfl

/-- The text is where the path leads. -/
theorem get_write : after.root.get? (tree.destination p) = some (.text content) := by
  obtain ⟨place, htarget, -, rfl⟩ := write_ok_iff.mp h
  obtain ⟨directory, name, rfl, hdirectory⟩ := place_of_target htarget
  obtain ⟨-, hplace, -⟩ := target_ok_iff.mp htarget
  rw [← hplace]
  exact FileNode.get_put hdirectory name _

/-- Texts at other places stay. -/
theorem get_write_of_ne {other : String} (hne : place ≠ tree.destination p)
    (hplace : tree.root.get? place = some (.text other)) :
    after.root.get? place = some (.text other) := by
  obtain ⟨written, htarget, hfree, rfl⟩ := write_ok_iff.mp h
  obtain ⟨directory, name, rfl, hdirectory⟩ := place_of_target htarget
  obtain ⟨-, hwritten, -⟩ := target_ok_iff.mp htarget
  rw [← hwritten] at hne
  rw [FileNode.text_iff_outline] at hplace ⊢
  rwa [FileNode.outline_get_put hdirectory hfree hne]

theorem directory_write_iff : after.root.IsDirectory place ↔ tree.root.IsDirectory place := by
  obtain ⟨written, htarget, hfree, rfl⟩ := write_ok_iff.mp h
  obtain ⟨directory, name, rfl, hdirectory⟩ := place_of_target htarget
  exact FileNode.directory_put_iff hdirectory hfree content

/-- A file can be made where it could be made before, and nowhere else. -/
theorem target_write_iff : after.target q = .ok place ↔ tree.target q = .ok place := by
  have hstart : after.start q = tree.start q := by
    obtain ⟨written, -, -, rfl⟩ := write_ok_iff.mp h
    rfl
  have hleads : ∀ front, Leads after.root (tree.start q) front ↔
      Leads tree.root (tree.start q) front := fun front =>
    ⟨Leads.mono fun s => (directory_write_iff h).mp,
      Leads.mono fun s => (directory_write_iff h).mpr⟩
  rw [target_ok_iff, target_ok_iff, destination_write h, hstart]
  simp only [hleads]

/-- A write neither makes room for another nor stands in its way. -/
theorem is_ok_write_after_iff (other : String) :
    (after.write q other).isOk ↔ (tree.write q other).isOk := by
  rw [is_ok_write_iff, is_ok_write_iff]
  simp only [target_write_iff h, directory_write_iff h]

end Written

end FileTree

end SvgPress
