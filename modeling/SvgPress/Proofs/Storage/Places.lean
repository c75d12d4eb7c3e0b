import SvgPress.Proofs.Faults
import SvgPress.Proofs.Text.Trim
import SvgPress.Storage.FileTree

/-!
Where paths lead. A path leads over directories only, so that the place of a file that can be
written follows from the components of its path and the working directory: the tree decides no more
than whether one gets there. Two spellings of a directory lead to the same files.
-/

namespace SvgPress

namespace Text

variable {p : Char → Bool} {c : Char}

theorem split_chars_ne_nil (cs : List Char) : splitChars p cs ≠ [] := by
  induction cs with
  | nil => exact List.cons_ne_nil _ _
  | cons c cs ih =>
      rw [splitChars]
      split
      · exact List.cons_ne_nil _ _
      · split
        · exact List.cons_ne_nil _ _
        · exact List.cons_ne_nil _ _

theorem split_chars_append (hc : p c = true) (cs ds : List Char) :
    splitChars p (cs ++ c :: ds) = splitChars p cs ++ splitChars p ds := by
  induction cs with
  | nil => simp [splitChars, hc]
  | cons b cs ih =>
      obtain ⟨piece, pieces, hcs⟩ := List.exists_cons_of_ne_nil (split_chars_ne_nil (p := p) cs)
      by_cases hb : p b
      · simp [splitChars, hb, ih]
      · simp [splitChars, hb, ih, hcs]

theorem split_chars_of_not {cs : List Char} (h : ∀ c ∈ cs, p c = false) :
    splitChars p cs = [cs] := by
  induction cs with
  | nil => rfl
  | cons c cs ih =>
      rw [splitChars, ih fun d hd => h d (List.mem_cons_of_mem c hd)]
      simp [h c List.mem_cons_self]

/-- No piece holds a separator. -/
theorem not_separator_of_mem_split_chars {p : Char → Bool} {cs piece : List Char} {c : Char}
    (hpiece : piece ∈ splitChars p cs) (hc : c ∈ piece) : p c = false := by
  induction cs generalizing piece with
  | nil =>
      rw [splitChars, List.mem_singleton] at hpiece
      cases hpiece ▸ hc
  | cons d cs ih =>
      rw [splitChars] at hpiece
      split at hpiece
      · rcases List.mem_cons.mp hpiece with rfl | hpiece
        · cases hc
        · exact ih hpiece hc
      · rename_i hd
        rw [Bool.not_eq_true] at hd
        obtain ⟨first, rest, hcs⟩ := List.exists_cons_of_ne_nil (split_chars_ne_nil (p := p) cs)
        rw [hcs] at hpiece ih
        rcases List.mem_cons.mp hpiece with rfl | hpiece
        · rcases List.mem_cons.mp hc with rfl | hc
          · exact hd
          · exact ih List.mem_cons_self hc
        · exact ih (List.mem_cons_of_mem _ hpiece) hc

/-- The pieces together are what is not cut away. -/
theorem flatten_split_chars (p : Char → Bool) (cs : List Char) :
    (splitChars p cs).flatten = cs.filter fun c => !p c := by
  induction cs with
  | nil => rfl
  | cons c cs ih =>
      rw [splitChars, List.filter_cons]
      cases hc : p c with
      | true => exact ih
      | false =>
          obtain ⟨piece, pieces, hcs⟩ := List.exists_cons_of_ne_nil (split_chars_ne_nil cs)
          rw [if_neg Bool.false_ne_true, ← ih, hcs]
          rfl

end Text

namespace Path

namespace Component

/-- The place that a component leads to from another place. -/
def aim (place : List String) : Component → List String
  | root => []
  | current => place
  | parent => place.dropLast
  | name n => place ++ [n]

theorem of_piece_injective {a b : List Char} (h : ofPiece a = ofPiece b) : a = b := by
  unfold ofPiece at h
  split at h <;> split at h
  · rename_i ha hb
    exact ha.trans hb.symm
  · cases h
  · cases h
  · exact String.ofList_injective (Component.name.inj h)

end Component

/-- The pieces of a path that count. -/
def moves (p : Path) : List (List Char) :=
  p.pieces.filter (!isIdle ·)

theorem pieces_ne_nil (p : Path) : p.pieces ≠ [] :=
  Text.split_chars_ne_nil _

/-- A path begins at the root, at a `.` or anywhere, and goes on with the pieces that count. -/
theorem components_eq (p : Path) :
    ∃ start : Option Component, p.components = start.toList ++ p.moves.map Component.ofPiece ∧
      (start = some .root ∧ p.isAbsolute = true ∨
        (start = some .current ∨ start = none) ∧ p.isAbsolute = false) := by
  obtain ⟨piece, rest, hpieces⟩ := List.exists_cons_of_ne_nil p.pieces_ne_nil
  refine ⟨p.split.1, ?_⟩
  simp only [components, moves, split, hpieces]
  split
  · rename_i habsolute
    -- what stands before the separator in front is empty
    obtain ⟨cs, hcs⟩ := List.head?_eq_some_iff.mp (by simpa [isAbsolute] using habsolute)
    have hpiece : piece = [] := by
      rw [pieces, hcs] at hpieces
      exact (List.cons.inj hpieces).1.symm
    simp [hpiece, isIdle, habsolute]
  · rename_i habsolute
    split
    · rename_i hdot
      simp [hdot, isIdle, habsolute]
    · simp [habsolute]

theorem same_iff {p q : Path} : p.same q ↔ p.components = q.components :=
  beq_iff_eq

/-- Whether a path goes on from some components by names alone. -/
def GoesOn (start : List Component) (p : Path) : Prop :=
  ∃ names : List String, p.components = start ++ names.map Component.name

/-- Paths that mean the same begin alike and have the same pieces that count. -/
theorem moves_of_same {p q : Path} (h : p.same q) :
    p.isAbsolute = q.isAbsolute ∧ p.moves = q.moves := by
  obtain ⟨s, hp, hs⟩ := p.components_eq
  obtain ⟨t, hq, ht⟩ := q.components_eq
  have hcomponents : s.toList ++ p.moves.map Component.ofPiece =
      t.toList ++ q.moves.map Component.ofPiece := by
    rw [← hp, ← hq]
    exact same_iff.mp h
  have hstart : ∀ (r : Path) (start : Component) (rest : List Component),
      r.moves.map Component.ofPiece = start :: rest → start ≠ .root ∧ start ≠ .current := by
    intro r start rest hmap
    have hmem : start ∈ r.moves.map Component.ofPiece := hmap ▸ List.mem_cons_self
    obtain ⟨piece, -, rfl⟩ := List.mem_map.mp hmem
    unfold Component.ofPiece
    constructor <;> split <;> exact Component.noConfusion
  have hsame : s = t := by
    rcases s with _ | s <;> rcases t with _ | t
    · rfl
    · have := hstart p t _ hcomponents
      simp_all
    · have := hstart q s _ hcomponents.symm
      simp_all
    · exact congrArg some (List.cons.inj hcomponents).1
  subst hsame
  refine ⟨?_, (List.map_inj_right fun _ _ => Component.of_piece_injective).mp
    (List.append_cancel_left hcomponents)⟩
  rcases hs with ⟨rfl, hs⟩ | ⟨hstart, hs⟩ <;> rcases ht with ⟨ht', ht⟩ | ⟨ht', ht⟩
  · rw [hs, ht]
  · simp at ht'
  · simp [ht'] at hstart
  · rw [hs, ht]

/-- What is joined to a path that is not absolute comes after all its pieces that count. -/
theorem pieces_join {p n : Path} (hn : n.isAbsolute = false) :
    ∃ front, (p.join n).pieces = front ++ n.pieces ∧ front.filter (!isIdle ·) = p.moves := by
  have hsep : ∀ cs : List Char, Text.splitChars (· == '/') (cs ++ '/' :: n.text.toList) =
      Text.splitChars (· == '/') cs ++ n.pieces :=
    fun cs => Text.split_chars_append (p := (· == '/')) rfl cs n.text.toList
  simp only [join, hn, Bool.false_eq_true, if_false]
  split
  · rename_i hends
    rcases Bool.or_eq_true_iff.mp hends with hempty | hends
    · refine ⟨[], ?_, ?_⟩
      · simp [pieces, String.isEmpty_iff.mp hempty]
      · simp [moves, pieces, String.isEmpty_iff.mp hempty, Text.splitChars, isIdle]
    · obtain ⟨cs, hcs⟩ := List.getLast?_eq_some_iff.mp (by simpa using hends)
      refine ⟨Text.splitChars (· == '/') cs, ?_, ?_⟩
      · rw [pieces, String.toList_append, hcs, List.append_assoc]
        exact hsep cs
      · rw [moves, pieces, hcs, Text.split_chars_append (p := (· == '/')) rfl cs []]
        simp [Text.splitChars, isIdle]
  · refine ⟨p.pieces, ?_, rfl⟩
    rw [pieces, String.toList_append, String.toList_append, List.append_assoc]
    exact hsep _

theorem is_absolute_join {p n : Path} (hn : n.isAbsolute = false) :
    (p.join n).isAbsolute = p.isAbsolute := by
  simp only [join, hn, Bool.false_eq_true, if_false]
  by_cases hempty : p.text = ""
  · simpa [isAbsolute, hempty] using hn
  · obtain ⟨c, cs, hcs⟩ := List.exists_cons_of_ne_nil (mt String.toList_eq_nil_iff.mp hempty)
    split <;> simp [isAbsolute, hcs]

end Path

namespace FileNode

/-- Whether a directory stands at the end of some names. -/
def IsDirectory (root : FileNode) (place : List String) : Prop :=
  ∃ entries, root.get? place = some (.directory entries)

theorem get_append (root : FileNode) (place names : List String) :
    root.get? (place ++ names) = (root.get? place).bind (·.get? names) := by
  induction place generalizing root with
  | nil => rfl
  | cons name place ih =>
      cases root with
      | directory entries =>
          simp only [List.cons_append, get?, Option.bind_assoc]
          exact congrArg _ (funext ih)
      | text content => rfl
      | binary => rfl

theorem get_concat {root : FileNode} {place : List String} {entries : List (String × FileNode)}
    (h : root.get? place = some (.directory entries)) (name : String) :
    root.get? (place ++ [name]) = entries.lookup name := by
  rw [get_append, h]
  simp [get?]

theorem IsDirectory.dropLast {root : FileNode} {place : List String} (h : root.IsDirectory place) :
    root.IsDirectory place.dropLast := by
  rcases List.eq_nil_or_concat place with rfl | ⟨front, name, rfl⟩
  · exact h
  · obtain ⟨entries, h⟩ := h
    rw [List.concat_eq_append, get_append] at h
    rw [List.concat_eq_append, List.dropLast_concat]
    obtain ⟨node, hnode, hget⟩ := Option.bind_eq_some_iff.mp h
    cases node with
    | directory inner => exact ⟨inner, hnode⟩
    | text content => cases hget
    | binary => cases hget

end FileNode

namespace FileTree

open SvgPress.Path

variable {tree : FileTree} {root : FileNode} {place s t : List String} {piece : List Char}
  {moves : List (List Char)} {p q n : Path}

/-- The place that a path stands for, whether or not something is there. -/
def destination (tree : FileTree) (p : Path) : List String :=
  p.components.foldl Component.aim tree.workingDirectory

/-- Paths that go on from one start by names stand for different places if they differ. -/
theorem components_eq_of_destination {start : List Component} (hp : GoesOn start p)
    (hq : GoesOn start q) (h : tree.destination p = tree.destination q) :
    p.components = q.components := by
  obtain ⟨names, hp⟩ := hp
  obtain ⟨names', hq⟩ := hq
  have hnames : ∀ (ns : List String) (s : List String),
      (ns.map Component.name).foldl Component.aim s = s ++ ns := by
    intro ns
    induction ns with
    | nil => exact fun s => (List.append_nil s).symm
    | cons n ns ih => exact fun s => by simp [Component.aim, ih]
  rw [destination, destination, hp, hq, List.foldl_append, List.foldl_append, hnames, hnames] at h
  rw [hp, hq, List.append_cancel_left h]

/-- Where a path begins. -/
def start (tree : FileTree) (p : Path) : List String :=
  if p.isAbsolute then [] else tree.workingDirectory

/-- The place that pieces that count lead to from another one. -/
def aim (s : List String) (moves : List (List Char)) : List String :=
  moves.foldl (fun s piece => (Component.ofPiece piece).aim s) s

theorem destination_eq (tree : FileTree) (p : Path) :
    tree.destination p = aim (tree.start p) p.moves := by
  obtain ⟨start, hp, hstart⟩ := p.components_eq
  rw [destination, hp, List.foldl_append, List.foldl_map]
  rcases hstart with ⟨rfl, h⟩ | ⟨rfl | rfl, h⟩ <;>
    simp [FileTree.start, h, Component.aim, aim]

/-- Whether pieces that count lead from one place to another over directories. -/
def Leads (root : FileNode) : List String → List (List Char) → Prop
  | s, [] => root.IsDirectory s
  | s, piece :: moves =>
    root.IsDirectory s ∧ Text.byteLength piece ≤ maxName ∧
      Leads root ((Component.ofPiece piece).aim s) moves

theorem Leads.from_directory (h : Leads root s moves) : root.IsDirectory s := by
  cases moves with
  | nil => exact h
  | cons piece moves => exact h.1

theorem Leads.to_directory (h : Leads root s moves) : root.IsDirectory (aim s moves) := by
  induction moves generalizing s with
  | nil => exact h
  | cons piece moves ih => exact ih h.2.2

/-- More directories do not stop a path. -/
theorem Leads.mono {root' : FileNode} (hroot : ∀ s, root.IsDirectory s → root'.IsDirectory s)
    (h : Leads root s moves) : Leads root' s moves := by
  induction moves generalizing s with
  | nil => exact hroot _ h
  | cons piece moves ih => exact ⟨hroot _ h.1, h.2.1, ih h.2.2⟩

theorem step_idle (h : isIdle piece = true) :
    step root s piece = .ok t ↔ root.IsDirectory s ∧ t = s := by
  unfold step FileNode.IsDirectory
  split
  · rename_i entries hs
    simp [h, hs, eq_comm]
  · rename_i hs
    constructor
    · exact fun h => nomatch h
    · rintro ⟨⟨entries, hentries⟩, -⟩
      exact absurd hentries (hs entries)

theorem step_move (h : isIdle piece = false) :
    step root s piece = .ok t ↔ root.IsDirectory s ∧ Text.byteLength piece ≤ maxName ∧
      t = (Component.ofPiece piece).aim s ∧ (root.get? t).isSome := by
  unfold step
  split
  · rename_i entries hs
    have hdirectory : root.IsDirectory s := ⟨entries, hs⟩
    simp only [h, Bool.false_eq_true, if_false, hdirectory, true_and]
    split
    · rename_i hparent
      obtain ⟨inner, hinner⟩ := hdirectory.dropLast
      subst hparent
      constructor
      · rintro h
        cases h
        exact ⟨by decide, rfl, by simp [hinner]⟩
      · rintro ⟨-, rfl, -⟩
        rfl
    · rename_i hname
      have haim : (Component.ofPiece piece).aim s = s ++ [String.ofList piece] := by
        simp [Component.ofPiece, hname, Component.aim]
      rw [haim]
      split
      · rename_i hlong
        constructor
        · exact fun h => nomatch h
        · rintro ⟨hshort, -⟩
          omega
      · rename_i hshort
        split
        · rename_i hentry
          constructor
          · rintro h
            cases h
            exact ⟨by omega, rfl, by rwa [FileNode.get_concat hs]⟩
          · rintro ⟨-, rfl, -⟩
            rfl
        · rename_i hentry
          constructor
          · exact fun h => nomatch h
          · rintro ⟨-, rfl, hsome⟩
            rw [FileNode.get_concat hs] at hsome
            exact absurd hsome hentry
  · rename_i hs
    constructor
    · exact fun h => nomatch h
    · rintro ⟨⟨entries, hentries⟩, -⟩
      exact absurd hentries (hs entries)

/-- Pieces can be followed to a directory exactly if those that count lead there. -/
theorem follow_iff {pieces : List (List Char)} :
    (pieces.foldlM (step root) s = .ok t ∧ root.IsDirectory t) ↔
      Leads root s (pieces.filter (!isIdle ·)) ∧ t = aim s (pieces.filter (!isIdle ·)) := by
  induction pieces generalizing s with
  | nil =>
      constructor
      · rintro ⟨h, hdirectory⟩
        cases h
        exact ⟨hdirectory, rfl⟩
      · rintro ⟨hdirectory, rfl⟩
        exact ⟨rfl, hdirectory⟩
  | cons piece pieces ih =>
      rw [List.foldlM_cons]
      cases hidle : isIdle piece with
      | true =>
          simp only [List.filter_cons, hidle, Bool.not_true, Bool.false_eq_true, if_false, ← ih]
          constructor
          · rintro ⟨h, hdirectory⟩
            obtain ⟨next, hstep, hrest⟩ := bind_ok h
            obtain ⟨-, rfl⟩ := (step_idle hidle).mp hstep
            exact ⟨hrest, hdirectory⟩
          · intro h
            have hs : root.IsDirectory s := (ih.mp h).1.from_directory
            rw [(step_idle hidle).mpr ⟨hs, rfl⟩]
            exact h
      | false =>
          simp only [List.filter_cons, hidle, Bool.not_false, if_true, Leads]
          constructor
          · rintro ⟨h, hdirectory⟩
            obtain ⟨next, hstep, hrest⟩ := bind_ok h
            obtain ⟨hs, hshort, rfl, -⟩ := (step_move hidle).mp hstep
            obtain ⟨hleads, ht⟩ := ih.mp ⟨hrest, hdirectory⟩
            exact ⟨⟨hs, hshort, hleads⟩, ht⟩
          · rintro ⟨⟨hs, hshort, hleads⟩, rfl⟩
            obtain ⟨entries, hnext⟩ := hleads.from_directory
            rw [(step_move hidle).mpr ⟨hs, hshort, rfl, by rw [hnext]; rfl⟩]
            exact ih.mpr ⟨hleads, rfl⟩

/-- A path that ends in a name leads to that name in the place that the pieces before it lead to. -/
theorem destination_concat {front : List (List Char)} {last : List Char}
    (hpieces : p.pieces = front ++ [last]) (hidle : isIdle last = false)
    (hname : last ≠ ['.', '.']) :
    tree.destination p =
      aim (tree.start p) (front.filter (!isIdle ·)) ++ [String.ofList last] := by
  have hlast : ∀ s, (Component.ofPiece last).aim s = s ++ [String.ofList last] := fun s => by
    simp [Component.ofPiece, hname, Component.aim]
  rw [destination_eq, moves, hpieces, List.filter_append]
  simp [aim, hidle, hlast]

/-- Whether a path ends in a name under which a directory can hold a file, with the pieces in front
of that name. -/
def EndsIn (p : Path) (front : List (List Char)) (last : List Char) : Prop :=
  p.pieces = front ++ [last] ∧ isIdle last = false ∧ last ≠ ['.', '.'] ∧
    Text.byteLength last ≤ maxName

/-- A file can be made exactly where a path ends in a name and leads over directories up to it. -/
theorem target_ok_iff :
    tree.target p = .ok place ↔ check p = .ok () ∧ place = tree.destination p ∧
      ∃ front last, EndsIn p front last ∧
        Leads tree.root (tree.start p) (front.filter (!isIdle ·)) := by
  constructor
  · intro h
    obtain ⟨⟨⟩, hcheck, h⟩ := bind_ok h
    obtain ⟨parent, hfollow, h⟩ := bind_ok h
    obtain ⟨back, hback, -, -⟩ := Text.drop_back_split (p := List.isEmpty) p.pieces
    split at h
    · rename_i entries hentries
      split at h
      · cases h
      · rename_i hends
        split at h
        · cases h
        · rename_i hshort
          simp only [Bool.or_eq_true, decide_eq_true_eq, not_or] at hends
          obtain ⟨⟨hlength, hidle⟩, hname⟩ := hends
          -- nothing empty stands at the end
          have hall : Text.dropBack List.isEmpty p.pieces = p.pieces := by
            have hlengths := congrArg List.length hback
            rw [List.length_append] at hlengths
            have hnil : back = [] := List.eq_nil_of_length_eq_zero (by omega)
            rw [hnil, List.append_nil] at hback
            exact hback.symm
          rw [hall] at hfollow hidle hname hshort h
          obtain ⟨front, last, hpieces⟩ :=
            (List.eq_nil_or_concat p.pieces).resolve_left p.pieces_ne_nil
          rw [List.concat_eq_append] at hpieces
          rw [hpieces, List.dropLast_concat] at hfollow
          rw [hpieces, List.getLastD_concat] at hidle hname hshort h
          obtain ⟨hleads, rfl⟩ := follow_iff.mp ⟨hfollow, entries, hentries⟩
          have hidle : isIdle last = false := by simpa using hidle
          refine ⟨hcheck, ?_, front, last, ⟨hpieces, hidle, hname, by omega⟩, hleads⟩
          rw [destination_concat hpieces hidle hname]
          cases h
          rfl
    · cases h
  · rintro ⟨hcheck, rfl, front, last, ⟨hpieces, hidle, hname, hshort⟩, hleads⟩
    obtain ⟨hfollow, entries, hentries⟩ := follow_iff.mpr ⟨hleads, rfl⟩
    have hall : Text.dropBack List.isEmpty (front ++ [last]) = front ++ [last] := by
      refine Text.drop_back_concat_of_not ?_
      rw [isIdle, Bool.or_eq_false_iff] at hidle
      exact hidle.1
    rw [destination_concat hpieces hidle hname]
    unfold target
    rw [hcheck]
    simp only [hpieces, hall, List.dropLast_concat, List.getLastD_concat]
    have hfollow : tree.follow p front = .ok (aim (tree.start p) _) := hfollow
    simp only [hfollow, bind, Except.bind, hentries]
    simp [hidle, hname, Nat.not_lt.mpr hshort]

/-- What can be made in a directory can be made there whatever way the directory is spelled. -/
theorem target_join_of_same (hsame : p.same q) (hcheck : check (q.join n) = .ok ())
    (h : tree.target (p.join n) = .ok place) : tree.target (q.join n) = .ok place := by
  cases hn : n.isAbsolute with
  | true =>
      have hjoin : ∀ base : Path, base.join n = n := fun base => by simp [join, hn]
      rwa [hjoin] at h ⊢
  | false =>
      obtain ⟨habsolute, hmoves⟩ := moves_of_same hsame
      obtain ⟨before, hp, hbefore⟩ := pieces_join (p := p) hn
      obtain ⟨before', hq, hbefore'⟩ := pieces_join (p := q) hn
      obtain ⟨front, last, hpieces⟩ := (List.eq_nil_or_concat n.pieces).resolve_left n.pieces_ne_nil
      rw [List.concat_eq_append] at hpieces
      rw [hpieces, ← List.append_assoc] at hp hq
      obtain ⟨-, rfl, front', last', ⟨hends, hidle, hname, hshort⟩, hleads⟩ := target_ok_iff.mp h
      obtain ⟨rfl, hlast⟩ := List.append_inj' (hp.symm.trans hends) rfl
      obtain rfl := (List.cons.inj hlast).1
      have hfront :
          (before' ++ front).filter (!isIdle ·) = (before ++ front).filter (!isIdle ·) := by
        rw [List.filter_append, List.filter_append, hbefore, hbefore', hmoves]
      have hstart : tree.start (q.join n) = tree.start (p.join n) := by
        rw [start, start, is_absolute_join hn, is_absolute_join hn, habsolute]
      refine target_ok_iff.mpr ⟨hcheck, ?_, before' ++ front, last, ⟨hq, hidle, hname, hshort⟩, ?_⟩
      · rw [destination_concat hp hidle hname, destination_concat hq hidle hname, hfront, hstart]
      · rwa [hfront, hstart]

/-- A plain name that is joined to a path comes after the place of that path. -/
theorem destination_join (hn : '/' ∉ n.text.toList) (h : tree.target (p.join n) = .ok place) :
    place = tree.destination p ++ [n.text] := by
  have habsolute : n.isAbsolute = false := by
    rw [isAbsolute, beq_eq_false_iff_ne]
    exact fun hhead => hn (List.mem_of_mem_head? hhead)
  have hpieces : n.pieces = [n.text.toList] := Text.split_chars_of_not fun c hc => by
    rw [beq_eq_false_iff_ne]
    exact fun heq => hn (heq ▸ hc)
  obtain ⟨before, hjoin, hbefore⟩ := pieces_join (p := p) habsolute
  obtain ⟨-, rfl, front, last, ⟨hends, hidle, hname, -⟩, -⟩ := target_ok_iff.mp h
  rw [hpieces] at hjoin
  obtain ⟨rfl, hlast⟩ := List.append_inj' (hjoin.symm.trans hends) rfl
  obtain rfl := (List.cons.inj hlast).1
  have hstart : tree.start (p.join n) = tree.start p := by
    rw [start, start, is_absolute_join habsolute]
  rw [destination_concat hends hidle hname, hbefore, hstart, ← destination_eq, String.ofList_toList]

/-- A file is read under every path under which it could be made. -/
theorem read_of_target {content : String} (h : tree.target p = .ok place)
    (hcontent : tree.root.get? place = some (.text content)) : tree.read p = .ok content := by
  obtain ⟨hcheck, rfl, front, last, ⟨hpieces, hidle, hname, hshort⟩, hleads⟩ := target_ok_iff.mp h
  obtain ⟨hfollow, hdirectory⟩ := follow_iff.mpr ⟨hleads, rfl⟩
  rw [destination_concat hpieces hidle hname] at hcontent
  have hlast : step tree.root (aim (tree.start p) (front.filter (!isIdle ·))) last =
      .ok (aim (tree.start p) (front.filter (!isIdle ·)) ++ [String.ofList last]) :=
    (step_move hidle).mpr ⟨hdirectory, hshort, by simp [Component.ofPiece, hname, Component.aim],
      by rw [hcontent]; rfl⟩
  have hlocate : tree.locate p =
      .ok (aim (tree.start p) (front.filter (!isIdle ·)) ++ [String.ofList last]) := by
    rw [locate, hcheck, hpieces]
    change (front ++ [last]).foldlM (step tree.root) (tree.start p) = _
    rw [List.foldlM_append, hfollow]
    simp only [bind, Except.bind, List.foldlM_cons, List.foldlM_nil, hlast]
    rfl
  simp [read, hlocate, bind, Except.bind, hcontent]

end FileTree

end SvgPress
