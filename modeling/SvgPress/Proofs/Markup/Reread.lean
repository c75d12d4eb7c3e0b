import SvgPress.Proofs.Markup.Leaves

/-!
The document that is read from what is written for a document. It is a function of the tree alone:
padding becomes text where it is written, adjacent texts come together, and the white space of each
element is settled when it closes. That the reader computes it is proved once, for every layout and
from every document under way; what a layout changes is then a question about trees.
-/

namespace SvgPress

open Markup

/-- A text put in front of nodes: it joins the text they begin with. -/
def joinFront (s : String) : List Node → List Node
  | .leaf .text t :: more => .leaf .text (s ++ t) :: more
  | more => .leaf .text s :: more

/-- Adjacent texts made one, and texts of nothing left out. -/
def joinTexts : List Node → List Node
  | [] => []
  | .leaf .text s :: rest => if s = "" then joinTexts rest else joinFront s (joinTexts rest)
  | n :: rest => n :: joinTexts rest

theorem Node.text_or_other (n : Node) : (∃ s, n = .leaf .text s) ∨ n.isLeaf .text = false := by
  cases n with
  | element tag children => exact .inr rfl
  | leaf kind s =>
      cases kind with
      | text => exact .inl ⟨s, rfl⟩
      | cdata | comment | declaration | instruction | doctype => exact .inr rfl

theorem join_texts_empty (rest : List Node) : joinTexts (.leaf .text "" :: rest) = joinTexts rest :=
  if_pos rfl

theorem join_texts_text {s : String} (h : s ≠ "") (rest : List Node) :
    joinTexts (.leaf .text s :: rest) = joinFront s (joinTexts rest) :=
  if_neg h

theorem join_texts_other {n : Node} (h : n.isLeaf .text = false) (rest : List Node) :
    joinTexts (n :: rest) = n :: joinTexts rest := by
  cases n with
  | element tag children => rfl
  | leaf kind s =>
      cases kind with
      | text => simp [Node.isLeaf] at h
      | cdata | comment | declaration | instruction | doctype => rfl

/-- The children of an element once it is known whether its white space stays. -/
def settle (tag : Tag) (kept : Bool) (children : List Node) : List Node :=
  if keepsOwnSpace tag children || kept then children else trimTexts children

namespace Layout

/-- The layout inside an element: text there stays on one line. -/
def inside (layout : Layout) (children : List Node) : Layout :=
  if children.any (Node.isLeaf .text) then compact else layout

/-- A node with its padding, as nodes. -/
def around (layout : Layout) (depth : Nat) (n : Node) : List Node :=
  [.leaf .text (layout.pad depth), n, .leaf .text layout.newline]

/-- The children of an element at some depth with all padding, as nodes. -/
def spread (layout : Layout) (depth : Nat) (children : List Node) : List Node :=
  if children.isEmpty then []
  else
    .leaf .text layout.newline :: children.flatMap (layout.around (depth + 1)) ++
      [.leaf .text (layout.pad depth)]

end Layout

namespace Node

mutual

/-- The node that is read from what is written for a node. `kept` tells whether an element outside
asks for its white space to be kept. -/
def reread (layout : Layout) (depth : Nat) (kept : Bool) : Node → Node
  | .leaf kind s => .leaf kind s
  | .element tag children =>
    let inner := layout.inside children
    .element tag
      (settle tag kept
        (joinTexts
          (inner.spread depth (rereadAll inner (depth + 1) (kept || tag.preservesSpace) children))))
termination_by structural n => n

def rereadAll (layout : Layout) (depth : Nat) (kept : Bool) : List Node → List Node
  | [] => []
  | n :: rest => n.reread layout depth kept :: rereadAll layout depth kept rest
termination_by structural ns => ns

end

mutual

/-- A property of a node and of all its descendants, each seen with whether an element outside it
asks for white space to be kept. -/
def Everywhere (p : Bool → Node → Prop) (kept : Bool) : Node → Prop
  | .leaf kind s => p kept (.leaf kind s)
  | .element tag children =>
    p kept (.element tag children) ∧ EverywhereIn p (kept || tag.preservesSpace) children
termination_by structural n => n

def EverywhereIn (p : Bool → Node → Prop) (kept : Bool) : List Node → Prop
  | [] => True
  | n :: rest => n.Everywhere p kept ∧ EverywhereIn p kept rest
termination_by structural ns => ns

end

mutual

/-- Where a property can be decided, whether it holds everywhere can be. -/
def decideEverywhere {p : Bool → Node → Prop} [∀ kept n, Decidable (p kept n)] : (n : Node) →
    (kept : Bool) → Decidable (n.Everywhere p kept)
  | .leaf kind s, kept => inferInstanceAs (Decidable (p kept (.leaf kind s)))
  | .element tag children, kept =>
    have := decideEverywhereIn (p := p) children (kept || tag.preservesSpace)
    inferInstanceAs (Decidable (p kept (.element tag children) ∧
      EverywhereIn p (kept || tag.preservesSpace) children))
termination_by structural n => n

def decideEverywhereIn {p : Bool → Node → Prop} [∀ kept n, Decidable (p kept n)] :
    (ns : List Node) → (kept : Bool) → Decidable (EverywhereIn p kept ns)
  | [], _ => .isTrue trivial
  | n :: rest, kept =>
    have := decideEverywhere (p := p) n kept
    have := decideEverywhereIn (p := p) rest kept
    inferInstanceAs (Decidable (n.Everywhere p kept ∧ EverywhereIn p kept rest))
termination_by structural ns => ns

end

instance {p : Bool → Node → Prop} [∀ kept n, Decidable (p kept n)] (kept : Bool) (ns : List Node) :
    Decidable (EverywhereIn p kept ns) :=
  decideEverywhereIn ns kept

mutual

theorem Everywhere.and {p q : Bool → Node → Prop} : (n : Node) → (kept : Bool) →
    n.Everywhere p kept → n.Everywhere q kept → n.Everywhere (fun k m => p k m ∧ q k m) kept
  | .leaf .., _, hp, hq => ⟨hp, hq⟩
  | .element _ children, _, hp, hq =>
    ⟨⟨hp.1, hq.1⟩, EverywhereIn.and children _ hp.2 hq.2⟩

theorem EverywhereIn.and {p q : Bool → Node → Prop} : (ns : List Node) → (kept : Bool) →
    EverywhereIn p kept ns → EverywhereIn q kept ns →
      EverywhereIn (fun k m => p k m ∧ q k m) kept ns
  | [], _, _, _ => trivial
  | n :: ns, kept, hp, hq => ⟨Everywhere.and n kept hp.1 hq.1, EverywhereIn.and ns kept hp.2 hq.2⟩

end

mutual

theorem Everywhere.imp {p q : Bool → Node → Prop} (hpq : ∀ kept n, p kept n → q kept n) :
    (n : Node) → (kept : Bool) → n.Everywhere p kept → n.Everywhere q kept
  | .leaf .., kept, h => hpq kept _ h
  | .element _ children, kept, h => ⟨hpq kept _ h.1, EverywhereIn.imp hpq children _ h.2⟩

theorem EverywhereIn.imp {p q : Bool → Node → Prop} (hpq : ∀ kept n, p kept n → q kept n) :
    (ns : List Node) → (kept : Bool) → EverywhereIn p kept ns → EverywhereIn q kept ns
  | [], _, _ => trivial
  | n :: ns, kept, h => ⟨Everywhere.imp hpq n kept h.1, EverywhereIn.imp hpq ns kept h.2⟩

end

/-- A property of the tag of a node, if it has one. -/
def HasTag (q : Tag → Prop) : Node → Prop
  | .leaf .. => True
  | .element tag _ => q tag

mutual

theorem everywhere_of_tags {q : Tag → Prop} : (n : Node) → (kept : Bool) →
    (∀ tag ∈ n.tags, q tag) → n.Everywhere (fun _ n => n.HasTag q) kept
  | .leaf .., _, _ => trivial
  | .element tag children, _, h =>
    ⟨h tag List.mem_cons_self,
      everywhere_in_of_tags children _ fun t ht => h t (List.mem_cons_of_mem tag ht)⟩

theorem everywhere_in_of_tags {q : Tag → Prop} : (ns : List Node) → (kept : Bool) →
    (∀ tag ∈ tagsOf ns, q tag) → EverywhereIn (fun _ n => n.HasTag q) kept ns
  | [], _, _ => trivial
  | n :: ns, kept, h =>
    ⟨everywhere_of_tags n kept fun t ht => h t (List.mem_append_left _ ht),
      everywhere_in_of_tags ns kept fun t ht => h t (List.mem_append_right _ ht)⟩

end

mutual

theorem tags_of_everywhere {q : Tag → Prop} : (n : Node) → (kept : Bool) →
    n.Everywhere (fun _ n => n.HasTag q) kept → ∀ tag ∈ n.tags, q tag
  | .leaf .., _, _ => fun _ hmem => absurd hmem List.not_mem_nil
  | .element _ children, _, h => by
      rw [tags, List.forall_mem_cons]
      exact ⟨h.1, tags_of_everywhere_in children _ h.2⟩

theorem tags_of_everywhere_in {q : Tag → Prop} : (ns : List Node) → (kept : Bool) →
    EverywhereIn (fun _ n => n.HasTag q) kept ns → ∀ tag ∈ tagsOf ns, q tag
  | [], _, _ => fun _ hmem => absurd hmem List.not_mem_nil
  | n :: ns, kept, h => by
      rw [tagsOf, List.forall_mem_append]
      exact ⟨tags_of_everywhere n kept h.1, tags_of_everywhere_in ns kept h.2⟩

end

/-- Whether a node is read back from what is written for it, apart from its children. -/
def IsLegible : Node → Prop
  | .leaf kind s => IsReadable kind s.toList
  | .element tag children => tag.IsPlain ∧ tag.isLegible children

mutual

theorem write_inline_eq : (n : Node) → (depth : Nat) → n.writeInline = n.write .compact depth
  | .leaf kind s, depth => by
      simp [writeInline, write, Layout.compact, Layout.pad, Layout.newline]
  | .element tag children, depth => by
      have ih := write_inline_all_eq children (depth + 1)
      simp only [writeInline, write, ih]
      simp only [Layout.compact, Layout.pad, Layout.newline, Bool.false_eq_true, if_false,
        String.empty_append, String.append_empty, ite_self]
      split <;> simp only [String.append_assoc]

theorem write_inline_all_eq : (ns : List Node) → (depth : Nat) →
    writeInlineAll ns = writeAll .compact depth ns
  | [], depth => rfl
  | n :: rest, depth => by
      rw [writeInlineAll, writeAll, write_inline_eq n depth, write_inline_all_eq rest depth]

end

mutual

/-- Where nothing goes on lines of its own, the indentation makes no difference. -/
theorem write_not_pretty (indent : Nat) : (n : Node) → (depth : Nat) →
    n.write ⟨false, indent⟩ depth = n.write .compact depth
  | .leaf .., _ => rfl
  | .element tag children, depth => by
      rw [write, write, write_all_not_pretty indent children (depth + 1)]
      rfl

theorem write_all_not_pretty (indent : Nat) : (ns : List Node) → (depth : Nat) →
    writeAll ⟨false, indent⟩ depth ns = writeAll .compact depth ns
  | [], _ => rfl
  | n :: rest, depth => by
      rw [writeAll, writeAll, write_not_pretty indent n, write_all_not_pretty indent rest]

end

/-- A node as written, without the padding around it. -/
def body (layout : Layout) (depth : Nat) : Node → String
  | .leaf kind s => writeLeaf kind s
  | .element tag children =>
    let inner := layout.inside children
    tag.writeOpening ++
      if children.isEmpty then "/>"
      else
        ">" ++ inner.newline ++ writeAll inner (depth + 1) children ++ inner.pad depth ++
          tag.writeClosing

theorem write_eq (layout : Layout) (depth : Nat) (n : Node) :
    n.write layout depth = layout.pad depth ++ n.body layout depth ++ layout.newline := by
  cases n with
  | leaf kind s => rfl
  | element tag children =>
      rw [write, body, Layout.inside]
      cases htext : children.any (isLeaf .text) with
      | false => simp [String.append_assoc]
      | true =>
          rw [write_inline_all_eq children (depth + 1)]
          simp [Layout.compact, Layout.newline, Layout.pad, String.append_assoc]

end Node

namespace Assembly

/-- Add a node as reading does: character data joins the text just before it. -/
def put (a : Assembly) : Node → Assembly
  | .leaf .text s => a.addChars s.toList
  | n => a.add n

/-- Whether an open element asks for white space to be kept. -/
def isKeeping (a : Assembly) : Bool :=
  a.opened.any (·.tag.preservesSpace)

@[simp] theorem put_element (a : Assembly) (tag : Tag) (children : List Node) :
    a.put (.element tag children) = a.add (.element tag children) := rfl

@[simp] theorem is_keeping_add (a : Assembly) (n : Node) : (a.add n).isKeeping = a.isKeeping := by
  unfold add isKeeping
  split <;> simp_all

@[simp] theorem is_keeping_add_chars (a : Assembly) (cs : List Char) :
    (a.addChars cs).isKeeping = a.isKeeping := by
  unfold addChars addText isKeeping
  split
  · rfl
  · split <;> simp_all

@[simp] theorem is_keeping_put (a : Assembly) (n : Node) : (a.put n).isKeeping = a.isKeeping := by
  unfold put
  split <;> simp

@[simp] theorem is_keeping_puts (a : Assembly) (ns : List Node) :
    (ns.foldl put a).isKeeping = a.isKeeping := by
  induction ns generalizing a with
  | nil => rfl
  | cons n ns ih => rw [List.foldl_cons, ih, is_keeping_put]

/-- Nodes after those read last: a text at the front joins the text just before it. -/
def glue (latest : List Node) : List Node → List Node
  | .leaf .text s :: more => more.reverse ++ joinText s latest
  | ns => ns.reverse ++ latest

theorem glue_join_front (s : String) (latest ns : List Node) :
    glue latest (joinFront s ns) = glue (joinText s latest) ns := by
  unfold joinFront
  split
  · simp [glue, join_text_join_text]
  · unfold glue
    split <;> simp_all

theorem glue_other {n : Node} (h : n.isLeaf .text = false) (latest ns : List Node) :
    glue latest (n :: ns) = glue (n :: latest) ns := by
  have hfront : glue latest (n :: ns) = (n :: ns).reverse ++ latest := by
    unfold glue
    split <;> simp_all [Node.isLeaf]
  have hjoin (s : String) : joinText s (n :: latest) = .leaf .text s :: n :: latest := by
    unfold joinText
    split <;> simp_all [Node.isLeaf]
  rw [hfront]
  unfold glue
  split <;> simp [hjoin]

/-- What an element holds after nodes were added to it. -/
theorem puts_opened (tag : Tag) (latest : List Node) (outer : List OpenElement) (top : List Node)
    (ns : List Node) :
    ns.foldl put ⟨⟨tag, latest⟩ :: outer, top⟩ =
      ⟨⟨tag, glue latest (joinTexts ns)⟩ :: outer, top⟩ := by
  induction ns generalizing latest with
  | nil => rfl
  | cons n ns ih =>
      rw [List.foldl_cons]
      rcases n.text_or_other with ⟨s, rfl⟩ | hother
      · by_cases hs : s = ""
        · subst hs
          rw [join_texts_empty]
          exact ih latest
        · have hput : put ⟨⟨tag, latest⟩ :: outer, top⟩ (.leaf .text s) =
              ⟨⟨tag, joinText s latest⟩ :: outer, top⟩ := by
            simp [put, addChars, addText, hs]
          rw [hput, ih, join_texts_text hs, glue_join_front]
      · have hput : put ⟨⟨tag, latest⟩ :: outer, top⟩ n = ⟨⟨tag, n :: latest⟩ :: outer, top⟩ := by
          unfold put
          split
          · cases hother
          · rfl
        rw [hput, ih, join_texts_other hother, glue_other hother]

theorem glue_nil (ns : List Node) : glue [] ns = ns.reverse := by
  unfold glue
  split <;> simp [joinText]

theorem settled_eq (tag : Tag) (latest : List Node) (outer : List OpenElement) :
    settled ⟨tag, latest⟩ outer =
      settle tag (outer.any (·.tag.preservesSpace)) latest.reverse := rfl

/-- At top level character data is dropped. -/
theorem puts_top (top ns : List Node) :
    ns.foldl put ⟨[], top⟩ = ⟨[], (ns.filter (!·.isLeaf .text)).reverse ++ top⟩ := by
  induction ns generalizing top with
  | nil => rfl
  | cons n ns ih =>
      rw [List.foldl_cons]
      rcases n.text_or_other with ⟨s, rfl⟩ | hother
      · have hput : put ⟨[], top⟩ (.leaf .text s) = ⟨[], top⟩ := by
          simp [put, addChars, addText]
        rw [hput, ih]
        rfl
      · have hput : put ⟨[], top⟩ n = ⟨[], n :: top⟩ := by
          unfold put
          split
          · cases hother
          · rfl
        rw [hput, ih, List.filter_cons_of_pos (by simp [hother])]
        simp

/-- The document under way once a start tag was read. -/
def enter (a : Assembly) (tag : Tag) : Assembly :=
  { a with opened := ⟨tag, []⟩ :: a.opened }

theorem resume_enter (a : Assembly) {tag : Tag} (h : tag.IsPlain)
    (hopen : tag.written.getLast? ≠ some '/') (rest : List Char) :
    a.resume (tag.writeOpening.toList ++ '>' :: rest) = (a.enter tag).resume rest := by
  rw [Tag.to_list_write_opening, List.cons_append,
    resume_takes a (markup_start a.openNames h hopen rest)]
  rfl

theorem resume_single (a : Assembly) {tag : Tag} (h : tag.IsPlain) (hne : tag.written ≠ [])
    (rest : List Char) :
    a.resume (tag.writeOpening.toList ++ '/' :: '>' :: rest) =
      (a.add (.element tag [])).resume rest := by
  rw [Tag.to_list_write_opening, List.cons_append,
    resume_takes a (markup_empty a.openNames h hne rest)]
  rfl

theorem resume_leave {tag : Tag} (h : tag.IsPlain) (latest : List Node) (outer : List OpenElement)
    (top : List Node) (rest : List Char) :
    (Assembly.mk (⟨tag, latest⟩ :: outer) top).resume (tag.writeClosing.toList ++ rest) =
      ((Assembly.mk outer top).add (.element tag (settled ⟨tag, latest⟩ outer))).resume rest := by
  have hclosing : tag.writeClosing.toList ++ rest =
      '<' :: '/' :: (tag.name.toList ++ '>' :: rest) := by
    simp [Tag.to_list_write_closing]
  have htakes : Takes
      (markup (Assembly.mk (⟨tag, latest⟩ :: outer) top).openNames
        ('/' :: (tag.name.toList ++ '>' :: rest)))
      (outer.map (·.tag.name)) (.close tag.name) rest := markup_end _ h rest
  rw [hclosing, resume_takes _ htakes]
  simp [step]

theorem resume_leaf (a : Assembly) {kind : LeafKind} {s : String} (h : IsReadable kind s.toList)
    (rest : List Char) :
    a.resume ((writeLeaf kind s).toList ++ rest) = (a.put (.leaf kind s)).resume rest := by
  by_cases htext : kind = .text
  · subst htext
    have hwritten : (writeLeaf .text s).toList = s.toList.flatMap Entity.escapeTextChar := by
      simp [writeLeaf, LeafKind.opening, LeafKind.closing, Entity.escapeText]
    rw [hwritten, resume_escaped]
    rfl
  · obtain ⟨cs, hcs, htakes⟩ := markup_leaf htext h a.openNames rest
    rw [hcs, resume_takes a htakes]
    cases kind with
    | text => exact absurd rfl htext
    | cdata | comment | declaration | instruction => rfl
    | doctype =>
        have htrim : Text.trim s = s := by
          rw [Text.trim, Text.trim_chars_eq_self_iff.mpr h.2.1, String.ofList_toList]
        rw [step, htrim]
        rfl

theorem resume_blanks (a : Assembly) (s : String) (h : ∀ c ∈ s.toList, Text.isBlank c)
    (rest : List Char) :
    a.resume (s.toList ++ rest) = (a.put (.leaf .text s)).resume rest := by
  refine resume_chars a s.toList (fun c hc => ?_) rest
  have hblank := h c hc
  constructor
  · rintro rfl
    simp [Text.isBlank] at hblank
  · rintro rfl
    simp [Text.isBlank] at hblank

end Assembly

theorem Layout.blank_pad (layout : Layout) (depth : Nat) :
    ∀ c ∈ (layout.pad depth).toList, Text.isBlank c := by
  intro c hc
  unfold pad at hc
  split at hc
  · simp only [Text.spaces, String.toList_ofList, List.mem_replicate] at hc
    rw [hc.2]
    rfl
  · simp at hc

theorem Layout.blank_newline (layout : Layout) :
    ∀ c ∈ layout.newline.toList, Text.isBlank c := by
  intro c hc
  unfold newline at hc
  split at hc
  · obtain rfl : c = '\n' := by simpa using hc
    rfl
  · simp at hc

namespace Node

open Assembly

theorem legible_written {tag : Tag} {children : List Node} (h : tag.isLegible children) :
    if children.isEmpty then tag.written ≠ [] else tag.written.getLast? ≠ some '/' := by
  split
  · rename_i hempty
    intro hwritten
    obtain ⟨hname, hattributes⟩ := List.append_eq_nil_iff.mp hwritten
    cases htag : tag.attributes with
    | nil => simp_all [Tag.isLegible]
    | cons b attributes => simp [htag, Attribute.to_list_write] at hattributes
  · rename_i hempty
    intro hlast
    obtain ⟨hattributes, hname⟩ := tag.last_written hlast
    simp [Tag.isLegible, hattributes, hname, hempty] at h

mutual

/-- What is written for a node is read as one node, in any document under way. -/
theorem resume_body : (n : Node) → (layout : Layout) → (depth : Nat) → (a : Assembly) →
    n.Everywhere (fun _ n => n.IsLegible) a.isKeeping → (rest : List Char) →
    a.resume ((n.body layout depth).toList ++ rest) =
      (a.put (n.reread layout depth a.isKeeping)).resume rest
  | .leaf kind s, layout, depth, a, h, rest => resume_leaf a h rest
  | .element tag children, layout, depth, a, h, rest => by
      obtain ⟨⟨hplain, hlegible⟩, hchildren⟩ := h
      have hwritten := legible_written hlegible
      cases children with
      | nil =>
          have hsingle := resume_single a hplain (by simpa using hwritten) rest
          have hnone : (Node.element tag []).reread layout depth a.isKeeping = .element tag [] := by
            simp [reread, rereadAll, Layout.spread, joinTexts, settle, trimTexts]
          rw [body, if_pos List.isEmpty_nil, String.toList_append, List.append_assoc, hnone]
          exact hsingle
      | cons first more =>
          have hopen : tag.written.getLast? ≠ some '/' := by simpa using hwritten
          rw [body, reread, put_element]
          generalize layout.inside (first :: more) = inner
          have henter : (a.enter tag).isKeeping = (a.isKeeping || tag.preservesSpace) := by
            simp [enter, isKeeping, Bool.or_comm]
          have hread := resume_write_all (first :: more) inner (depth + 1)
            ((a.enter tag).put (.leaf .text inner.newline))
            (by rw [is_keeping_put, henter]; exact hchildren)
          rw [is_keeping_put, henter] at hread
          have hne : (rereadAll inner (depth + 1) (a.isKeeping || tag.preservesSpace)
              (first :: more)).isEmpty = false := rfl
          generalize rereadAll inner (depth + 1) (a.isKeeping || tag.preservesSpace)
            (first :: more) = read at hread hne ⊢
          have hspread : ((read.flatMap (inner.around (depth + 1))).foldl put
              ((a.enter tag).put (.leaf .text inner.newline))).put
                (.leaf .text (inner.pad depth)) =
              (inner.spread depth read).foldl put (a.enter tag) := by
            simp [Layout.spread, hne]
          rw [if_neg (by simp)]
          simp only [String.toList_append, List.append_assoc]
          rw [show ">".toList = ['>'] from rfl, List.singleton_append, resume_enter a hplain hopen,
            resume_blanks _ _ inner.blank_newline, hread, resume_blanks _ _ (inner.blank_pad depth),
            hspread, enter, puts_opened, glue_nil, resume_leave hplain, settled_eq,
            List.reverse_reverse]
          rfl

/-- Each node on its lines is read as the node with its padding. -/
theorem resume_write_all : (ns : List Node) → (layout : Layout) → (depth : Nat) →
    (a : Assembly) → EverywhereIn (fun _ n => n.IsLegible) a.isKeeping ns → (rest : List Char) →
    a.resume ((writeAll layout depth ns).toList ++ rest) =
      (((rereadAll layout depth a.isKeeping ns).flatMap (layout.around depth)).foldl put
        a).resume rest
  | [], layout, depth, a, h, rest => rfl
  | n :: ns, layout, depth, a, h, rest => by
      have hkeeping : (a.put (.leaf .text (layout.pad depth))).isKeeping = a.isKeeping :=
        is_keeping_put a _
      have hbody := resume_body n layout depth (a.put (.leaf .text (layout.pad depth)))
        (by rw [hkeeping]; exact h.1)
      have hall := resume_write_all ns layout depth
        ((layout.around depth (n.reread layout depth a.isKeeping)).foldl put a)
        (by rw [is_keeping_puts]; exact h.2)
      rw [hkeeping] at hbody
      rw [is_keeping_puts] at hall
      rw [writeAll, write_eq]
      simp only [String.toList_append, List.append_assoc]
      rw [resume_blanks a _ (layout.blank_pad depth), hbody,
        resume_blanks _ _ layout.blank_newline, rereadAll, List.flatMap_cons, List.foldl_append]
      exact hall rest

end

theorem is_leaf_reread (kind : LeafKind) (layout : Layout) (depth : Nat) (kept : Bool) (n : Node) :
    (n.reread layout depth kept).isLeaf kind = n.isLeaf kind := by
  cases n <;> rfl

theorem is_element_reread (layout : Layout) (depth : Nat) (kept : Bool) (n : Node) :
    (n.reread layout depth kept).isElement = n.isElement := by
  cases n <;> rfl

theorem reread_all_eq_map (layout : Layout) (depth : Nat) (kept : Bool) (ns : List Node) :
    rereadAll layout depth kept ns = ns.map (reread layout depth kept) := by
  induction ns with
  | nil => rfl
  | cons n ns ih => rw [rereadAll, ih, List.map_cons]

theorem write_all_append (layout : Layout) (depth : Nat) (ns ms : List Node) :
    writeAll layout depth (ns ++ ms) = writeAll layout depth ns ++ writeAll layout depth ms := by
  induction ns with
  | nil => simp [writeAll]
  | cons n ns ih => rw [List.cons_append, writeAll, writeAll, ih, String.append_assoc]

theorem everywhere_in_iff {p : Bool → Node → Prop} {kept : Bool} {ns : List Node} :
    EverywhereIn p kept ns ↔ ∀ n ∈ ns, n.Everywhere p kept := by
  induction ns with
  | nil => simp [EverywhereIn]
  | cons n ns ih => simp [EverywhereIn, ih]

/-- Padding has no part in the nodes other than text. -/
theorem filter_around (layout : Layout) (depth : Nat) (ns : List Node) :
    (ns.flatMap (layout.around depth)).filter (!·.isLeaf .text) = ns.filter (!·.isLeaf .text) := by
  induction ns with
  | nil => rfl
  | cons n ns ih =>
      have htext (s : String) : (Node.leaf .text s).isLeaf .text = true := rfl
      rw [List.flatMap_cons, List.filter_append, ih]
      cases hn : n.isLeaf .text <;> simp [Layout.around, hn, htext]

/-- Anything but text is written between angle brackets. -/
theorem body_brackets {n : Node} (h : n.isLeaf .text = false) (layout : Layout) (depth : Nat) :
    ∃ cs, (n.body layout depth).toList = '<' :: (cs ++ ['>']) := by
  cases n with
  | leaf kind s =>
      rw [body, writeLeaf]
      cases kind with
      | text => simp [isLeaf] at h
      | cdata => exact ⟨"![CDATA[".toList ++ s.toList ++ "]]".toList, by
          simp [LeafKind.opening, LeafKind.closing]⟩
      | comment => exact ⟨"!--".toList ++ s.toList ++ "--".toList, by
          simp [LeafKind.opening, LeafKind.closing]⟩
      | declaration | instruction => exact ⟨'?' :: s.toList ++ ['?'], by
          simp [LeafKind.opening, LeafKind.closing]⟩
      | doctype => exact ⟨"!DOCTYPE ".toList ++ s.toList, by
          simp [LeafKind.opening, LeafKind.closing]⟩
  | element tag children =>
      rw [body]
      split
      · exact ⟨tag.written ++ ['/'], by simp [Tag.to_list_write_opening]⟩
      · let inner := layout.inside children
        exact ⟨tag.written ++ '>' :: inner.newline.toList ++
            (writeAll inner (depth + 1) children).toList ++ (inner.pad depth).toList ++
            '<' :: '/' :: tag.name.toList, by
          simp [inner, Tag.to_list_write_opening, Tag.to_list_write_closing]⟩

end Node

namespace Document

/-- The document that is read from what is written for a document. -/
def reread (doc : Document) (layout : Layout) : Document :=
  ⟨Node.rereadAll layout 0 false doc.nodes⟩

theorem write_not_pretty (doc : Document) (indent : Nat) :
    doc.write ⟨false, indent⟩ = doc.write .compact := by
  rw [write, write, Node.write_all_not_pretty]

/-- No text stands outside the root element. -/
def IsTextless (doc : Document) : Prop :=
  ∀ n ∈ doc.nodes, n.isLeaf .text = false

theorem parse_eq_ok_iff {source : String} {doc : Document} :
    parse source = .ok doc ↔ (parse source).toOption = some doc := by
  cases parse source <;> simp [Except.toOption]

/-- What parsing makes of a text, as far as it is a document. -/
theorem parse_to_option (source : String) (h : source.toList.head? ≠ some '\uFEFF') :
    (parse source).toOption = Assembly.empty.resume source.toList := by
  have hread : Markup.read source = Markup.readFrom 0 [] source.toList := by
    unfold Markup.read
    split
    · rename_i cs hcs
      simp [hcs] at h
    · rfl
  have hnames : Assembly.empty.openNames = [] := rfl
  rw [parse, hread, ofReading, Assembly.resume, hnames, Assembly.conclude]
  cases Assembly.empty.run (readFrom 0 [] source.toList).events with
  | error fault => rfl
  | ok a => cases (readFrom 0 [] source.toList).fault <;> rfl

open Node

/-- The characters of a document as written: the last node ends it. -/
theorem write_chars {doc : Document} (layout : Layout) {front : List Node} {last : Node}
    (hnodes : doc.nodes = front ++ [last]) (hlast : last.isLeaf .text = false) :
    (doc.write layout).toList =
      (writeAll layout 0 front).toList ++ ((layout.pad 0).toList ++
        (last.body layout 0).toList) := by
  obtain ⟨cs, hcs⟩ := body_brackets hlast layout 0
  have hwritten : (writeAll layout 0 doc.nodes).toList =
      ((writeAll layout 0 front).toList ++ (layout.pad 0).toList ++ '<' :: cs ++ ['>']) ++
        layout.newline.toList := by
    rw [hnodes, write_all_append]
    simp [writeAll, write_eq, hcs]
  rw [write, Text.trimEnd, String.toList_ofList, hwritten,
    Text.drop_back_append_of_all layout.blank_newline,
    Text.drop_back_concat_of_not (by decide), hcs]
  simp

theorem head_write {doc : Document} (htext : doc.IsTextless) (layout : Layout) :
    (doc.write layout).toList.head? ≠ some '\uFEFF' := by
  have hpad : layout.pad 0 = "" := by
    unfold Layout.pad
    split
    · simp [Text.spaces]
    · rfl
  rcases List.eq_nil_or_concat doc.nodes with hnil | ⟨front, last, hconcat⟩
  · simp [write, hnil, writeAll, Text.trimEnd]
  · rw [List.concat_eq_append] at hconcat
    have hlast := htext last (by simp [hconcat])
    obtain ⟨cs, hcs⟩ := body_brackets hlast layout 0
    rw [write_chars layout hconcat hlast, hpad, hcs]
    cases front with
    | nil => simp [writeAll]
    | cons first more =>
        obtain ⟨ds, hds⟩ := body_brackets (htext first (by simp [hconcat])) layout 0
        simp [writeAll, write_eq, hpad, hds]

/-- What is written for a document whose nodes are legible is read as a document again, and which
one is known. -/
theorem parse_write {doc : Document} (htext : doc.IsTextless)
    (hlegible : EverywhereIn (fun _ n => n.IsLegible) false doc.nodes) (layout : Layout) :
    (parse (doc.write layout)).toOption =
      if doc.nodes.any isElement then some (doc.reread layout) else none := by
  have hfinish : Assembly.empty.resume (doc.write layout).toList =
      (Assembly.mk [] (doc.reread layout).nodes.reverse).resume [] := by
    rcases List.eq_nil_or_concat doc.nodes with hnil | ⟨front, last, hconcat⟩
    · have hwrite : doc.write layout = "" := by
        simp [write, hnil, writeAll, Text.trimEnd]
      rw [hwrite, reread, hnil]
      rfl
    · rw [List.concat_eq_append] at hconcat
      have hlast := htext last (by simp [hconcat])
      rw [hconcat, everywhere_in_iff] at hlegible
      have hall := resume_write_all front layout 0 .empty
        (everywhere_in_iff.mpr fun n hn => hlegible n (List.mem_append_left _ hn))
      generalize hread : ((rereadAll layout 0 Assembly.empty.isKeeping front).flatMap
        (layout.around 0)).foldl Assembly.put .empty = a at hall
      have hkeeping : (a.put (.leaf .text (layout.pad 0))).isKeeping = false := by
        rw [Assembly.is_keeping_put, ← hread, Assembly.is_keeping_puts]
        rfl
      have hbody := resume_body last layout 0 (a.put (.leaf .text (layout.pad 0)))
        (by rw [hkeeping]; exact hlegible last (by simp)) []
      rw [List.append_nil, hkeeping] at hbody
      rw [write_chars layout hconcat hlast, hall, Assembly.resume_blanks _ _ (layout.blank_pad 0),
        hbody]
      congr 1
      have hnodes : ∀ n ∈ (doc.reread layout).nodes, n.isLeaf .text = false := by
        intro n hn
        rw [Document.reread, reread_all_eq_map] at hn
        obtain ⟨m, hm, rfl⟩ := List.mem_map.mp hn
        rw [is_leaf_reread]
        exact htext m hm
      have hputs := Assembly.puts_top [] ((rereadAll layout 0 false front).flatMap
        (layout.around 0) ++ [.leaf .text (layout.pad 0), last.reread layout 0 false])
      have hsplit : (doc.reread layout).nodes =
          rereadAll layout 0 false front ++ [last.reread layout 0 false] := by
        simp [Document.reread, hconcat, reread_all_eq_map]
      rw [List.foldl_append, List.foldl_cons, List.foldl_cons, List.foldl_nil,
        List.filter_append, filter_around] at hputs
      rw [← hread]
      refine hputs.trans ?_
      rw [← List.filter_eq_self.mpr (fun n hn => by simp [hnodes n hn] :
        ∀ n ∈ (doc.reread layout).nodes, (!n.isLeaf .text) = true), hsplit, List.filter_append]
      simp [isLeaf]
  rw [parse_to_option _ (head_write htext layout), hfinish, Assembly.resume_nil, Assembly.finish]
  have hroot : (doc.reread layout).nodes.reverse.any isElement = doc.nodes.any isElement := by
    rw [List.any_reverse, reread, reread_all_eq_map, List.any_map]
    congr 1
    funext n
    exact is_element_reread layout 0 false n
  dsimp only
  rw [hroot, List.reverse_reverse]
  split <;> rfl

end Document

end SvgPress
