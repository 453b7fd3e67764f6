import Tabulark.Preview.YamlBlock

/-!
# Reading back block YAML

`parseYaml` gives a printed tree back exactly if its root is a container, no sequence
is an item, no item begins with a key that has a container for its value, integers
are doubles, and nothing in the comments is taken for what is disabled
(`parseYaml_eq_iff`). The containers of the other trees get lost, or their
contents are put in what they are in.
-/

namespace Tabulark.Preview

open Text

/-! ## Lines that were printed -/

section

variable {c : Char} {content : Text} {indent : ℕ}

theorem mem_replicate_space (h : c ∈ List.replicate indent ' ') : isSpace c := by
  rw [List.eq_of_mem_replicate h]
  rfl

namespace Content

theorem indentation_rawLine (h : Content content) :
    indentation (rawLine (indent, content)) = indent := by
  rw [rawLine, indentation_append (fun _ => mem_replicate_space) h.trimmed.head,
    List.length_replicate]

theorem trim_rawLine (h : Content content) : trim (rawLine (indent, content)) = content :=
  h.trimmed.trim_append fun _ => mem_replicate_space

theorem trimStart_rawLine (h : Content content) :
    trimStart (rawLine (indent, content)) = content := by
  rw [rawLine, trimStart_append fun _ => mem_replicate_space, trimStart_of_head h.trimmed.head]

/-- A line that was printed is neither blank nor a comment. -/
theorem isMeaningful_rawLine (h : Content content) : isMeaningful (rawLine (indent, content)) := by
  have hcomment : ['#'].isPrefixOf content = false := by
    rw [Bool.eq_false_iff]
    intro hprefix
    obtain ⟨rest, rfl⟩ := List.isPrefixOf_iff_prefix.1 hprefix
    exact h.notMem (c := '#') rfl (by simp)
  rw [isMeaningful, h.trim_rawLine, h.trimStart_rawLine, hcomment]
  simpa using h.ne_nil

/-- A line that was printed has the content that was printed. -/
theorem yamlLine_eq (h : Content content) (number : ℕ) (nextRaw : Option Text) (stack : OpenStack) :
    yamlLine (rawLine (indent, content)) number nextRaw stack =
      if ['-', ' '].isPrefixOf content then
        yamlItem content number indent nextRaw (stack.close indent)
      else yamlField content number indent nextRaw (stack.close indent) := by
  have htab : '\t' ∉ (rawLine (indent, content)).take indent := fun hmem => by
    rw [rawLine, List.take_left' List.length_replicate] at hmem
    exact absurd (List.eq_of_mem_replicate hmem) (by decide)
  unfold yamlLine
  simp only [h.indentation_rawLine, if_neg htab, h.trim_rawLine, h.stripYamlComment_eq]

theorem yamlLine_item (h : Content content) (number : ℕ) (nextRaw : Option Text)
    (stack : OpenStack) :
    yamlLine (rawLine (indent, '-' :: ' ' :: content)) number nextRaw stack =
      yamlItem ('-' :: ' ' :: content) number indent nextRaw (stack.close indent) := by
  rw [h.item.yamlLine_eq, if_pos]
  rfl

theorem childContainer_rawLine (h : Content content) {parent : ℕ} :
    childContainer (some (rawLine (indent, content))) parent =
      if parent < indent ∧ ['-', ' '].isPrefixOf content then .array [] else .object [] := by
  simp only [childContainer, h.indentation_rawLine, h.trimStart_rawLine]

end Content

end

/-! ## Closing -/

section

variable {stack : OpenStack} {frame : Frame} {j k : ℤ}

def OpenStack.setTop (stack : OpenStack) (container : Container) : OpenStack :=
  { stack with top := { stack.top with container } }

theorem close_of_lt (h : stack.top.indent < k) : stack.close k = stack := by
  obtain ⟨top, _ | ⟨parent, below⟩⟩ := stack
  · rfl
  · exact if_neg (not_le.2 h)

/-- A container is put in its slot when it is closed. -/
theorem close_push (h : k ≤ frame.indent) :
    (stack.push frame).close k = (stack.put frame.slot frame.container.value).close k :=
  if_pos h

theorem closeFrames_closeFrames (h : j ≤ k) (top : Frame) (below : List Frame) :
    (closeFrames k top below).close j = closeFrames j top below := by
  induction below generalizing top with
  | nil => rfl
  | cons parent below ih =>
    rw [closeFrames]
    split
    · rename_i hk
      rw [ih, closeFrames, if_pos (h.trans hk)]
    · rfl

/-- What is closed at an indentation is closed at a smaller one. -/
theorem close_close (h : j ≤ k) : (stack.close k).close j = stack.close j :=
  closeFrames_closeFrames h stack.top stack.below

theorem put_array {items : List (Value Text)} (htop : stack.top.container = .array items)
    (value : Value Text) : stack.put .item value = stack.setTop (.array (items ++ [value])) := by
  rw [OpenStack.put, Frame.put, htop]
  rfl

theorem put_object {fields : List (Text × Value Text)} {key : Text}
    (htop : stack.top.container = .object fields) (hnew : hasOwn fields key = false)
    (hindex : arrayIndex? key = none) (value : Value Text) :
    stack.put (.field key) value = stack.setTop (.object (fields ++ [(key, value)])) := by
  rw [OpenStack.put, Frame.put, htop, Container.put, setField_of_new hnew hindex]
  rfl

end

/-! ## What lines do -/

/-- What a tree needs to be an item of a sequence. -/
def YamlTree.ReadableItem : YamlTree → Prop
  | scalar _ => True
  | sequence _ => False
  | mapping [] => True
  | mapping ((_, first) :: _) => first.isScalar

/-- What a tree needs to be read back, at its root. -/
def YamlTree.ReadableNode : YamlTree → Prop
  | scalar (.integer n) => JsNumber.ofRat n = .finite n
  | scalar _ => True
  | sequence items => ∀ item ∈ items, item.ReadableItem
  | mapping _ => True

section

variable {stack : OpenStack} {s : YamlScalar} {key : Text} {number indent : ℕ}
  {nextRaw : Option Text} {items : List (Value Text)} {fields : List (Text × Value Text)}

theorem IsKey.arrayIndex_eq (h : IsKey key) : arrayIndex? key = none := by
  obtain ⟨c, hc, hdigit⟩ := h.exists_not_digit
  refine if_neg fun hindex => ?_
  exact Bool.false_ne_true (hdigit.symm.trans (List.all_eq_true.1 hindex.2.1 c hc))

theorem YamlScalar.scalar_eq (hs : YamlTree.ReadableNode (.scalar s)) : scalar s.print = s.value :=
  s.scalar_print fun n hn => by
    subst hn
    exact hs

theorem IsKey.splitPair_field (h : IsKey key) (s : YamlScalar) :
    splitPair (key ++ ':' :: ' ' :: s.print) = .ok (some (key, s.print)) := by
  have hspace : ∀ c ∈ [' '], isSpace c := List.forall_mem_singleton.2 rfl
  have htrim : trim (' ' :: s.print) = s.print := s.trimmed.trim_append hspace
  rw [h.plainKey.splitPair_append, htrim]

/-- A key with a scalar is added to a mapping. -/
theorem yamlField_scalar (fields : List (Text × Value Text)) (hkey : IsKey key)
    (hs : YamlTree.ReadableNode (.scalar s))
    (htop : stack.top.container = .object fields) (hnew : hasOwn fields key = false) :
    yamlField (key ++ ':' :: ' ' :: s.print) number indent nextRaw stack =
      .ok (stack.setTop (.object (fields ++ [(key, s.value)]))) := by
  rw [← put_object htop hnew hkey.arrayIndex_eq]
  unfold yamlField
  simp only [htop, hkey.splitPair_field, Result.ok_bind, hnew, Bool.false_eq_true, if_false,
    if_neg s.print_ne_nil, YamlScalar.scalar_eq hs]
  cases s <;> rfl

/-- A key with a container opens it. -/
theorem yamlField_key (hkey : IsKey key) (htop : stack.top.container = .object fields)
    (hnew : hasOwn fields key = false) :
    yamlField (key ++ [':']) number indent nextRaw stack =
      .ok (stack.push ⟨indent, .field key, childContainer nextRaw indent⟩) := by
  unfold yamlField
  simp only [htop, hkey.plainKey.splitPair_append, Result.ok_bind, hnew, Bool.false_eq_true,
    if_false]
  rfl

/-- A scalar is added to a sequence. -/
theorem yamlItem_scalar (hprint : YamlTree.PrintableNode (.scalar s))
    (hs : YamlTree.ReadableNode (.scalar s)) (htop : stack.top.container = .array items) :
    yamlItem ('-' :: ' ' :: s.print) number indent nextRaw stack =
      .ok (stack.setTop (.array (items ++ [s.value]))) := by
  rw [← put_array htop]
  unfold yamlItem
  simp only [htop, List.drop_succ_cons, List.drop_zero, s.trimmed.trim_eq,
    splitPair_of_notMem (YamlScalar.colon_notMem hprint), Result.ok_bind,
    YamlScalar.scalar_eq hs]
  rfl

/-- A mapping is opened by its first key. -/
theorem yamlItem_field (hkey : IsKey key) (hprint : YamlTree.PrintableNode (.scalar s))
    (hs : YamlTree.ReadableNode (.scalar s)) (htop : stack.top.container = .array items) :
    yamlItem ('-' :: ' ' :: (key ++ ':' :: ' ' :: s.print)) number indent nextRaw stack =
      .ok (stack.push ⟨indent, .item, .object [(key, s.value)]⟩) := by
  unfold yamlItem
  simp only [htop, List.drop_succ_cons, List.drop_zero, (Content.field hkey hprint).trim_eq,
    hkey.splitPair_field, Result.ok_bind, if_neg s.print_ne_nil, YamlScalar.scalar_eq hs]
  rfl

end

/-! ## What trees do -/

namespace YamlTree

/-- The container that a tree is put in. -/
def start : YamlTree → Container
  | sequence _ => .array []
  | _ => .object []

/-- What its lines make of it. -/
def filled : YamlTree → Container
  | scalar _ => .object []
  | sequence items => .array (itemValues items)
  | mapping fields => .object (fieldValues fields)

/-- The lines of a tree fill a container that is open for it. -/
def Fills (compact : Bool) (t : YamlTree) : Prop :=
  ∀ (indent : ℕ) (stack base : OpenStack) (numbered rest : List (Text × ℕ)),
    numbered.map Prod.fst = (t.lines compact indent).map rawLine → stack.close indent = base →
    base.top.indent < indent → base.top.container = t.start →
    ∃ stack', yamlLines (numbered ++ rest) stack = yamlLines rest stack' ∧
      stack'.close indent = base.setTop t.filled

/-- What the lines of a readable tree need of it. -/
structure Readable (t : YamlTree) : Prop where
  printable : t.Printable
  readable : ∀ node ∈ t.nodes, node.ReadableNode

end YamlTree

section

variable {compact : Bool} {t : YamlTree} {items : List YamlTree} {item : YamlTree}
  {fields : List (Text × YamlTree)} {field : Text × YamlTree}

theorem YamlTree.filled_value (h : t.isScalar = false) : t.filled.value = t.value := by
  cases t with
  | scalar => exact absurd h.symm Bool.false_ne_true
  | _ => rfl

theorem YamlTree.Readable.root (h : t.Readable) : t.PrintableNode ∧ t.ReadableNode :=
  ⟨h.printable t t.self_mem_nodes, h.readable t t.self_mem_nodes⟩

theorem YamlTree.Readable.of_mem_items (h : (sequence items).Readable) (hitem : item ∈ items) :
    item.Readable where
  printable node hnode := h.printable node (mem_sequence_nodes hitem hnode)
  readable node hnode := h.readable node (mem_sequence_nodes hitem hnode)

theorem YamlTree.Readable.of_mem_fields (h : (mapping fields).Readable) (hfield : field ∈ fields) :
    field.2.Readable where
  printable node hnode := h.printable node (mem_mapping_nodes hfield hnode)
  readable node hnode := h.readable node (mem_mapping_nodes hfield hnode)

theorem YamlTree.Readable.isKey (h : (mapping fields).Readable) (hfield : field ∈ fields) :
    IsKey field.1 := h.root.1.2.2 field hfield

theorem IsKey.isPrefixOf_append {key : Text} (h : IsKey key) (rest : Text) :
    ['-', ' '].isPrefixOf (key ++ rest) = false := by
  rw [Bool.eq_false_iff]
  intro hprefix
  obtain ⟨item, hitem⟩ := List.isPrefixOf_iff_prefix.1 hprefix
  exact h.append_ne_item rest hitem

/-- The first line of a container tells a sequence from a mapping. -/
theorem YamlTree.Readable.lines_eq (h : t.Readable) (ht : t.isScalar = false) (compact : Bool)
    (indent : ℕ) : ∃ content lines, t.lines compact indent = (indent, content) :: lines ∧
      Content content ∧
      (if ['-', ' '].isPrefixOf content then Container.array [] else .object []) = t.start := by
  cases t with
  | scalar => exact absurd ht.symm Bool.false_ne_true
  | sequence items =>
    cases items with
    | nil => exact absurd rfl h.root.1
    | cons item items =>
      have hitem := h.of_mem_items List.mem_cons_self
      have hreadable := h.root.2 item List.mem_cons_self
      cases item with
      | scalar s => exact ⟨_, _, rfl, .item (.scalar hitem.root.1), rfl⟩
      | sequence => exact hreadable.elim
      | mapping fields =>
        cases fields with
        | nil => exact absurd rfl hitem.root.1.1
        | cons field fields =>
          obtain ⟨key, first⟩ := field
          have hkey := hitem.isKey List.mem_cons_self
          cases first with
          | scalar s =>
            have hs := hitem.of_mem_fields List.mem_cons_self
            exact ⟨_, _, rfl, .item (.field hkey hs.root.1), rfl⟩
          | _ => exact absurd hreadable Bool.false_ne_true
  | mapping fields =>
    cases fields with
    | nil => exact absurd rfl h.root.1.1
    | cons field fields =>
      obtain ⟨key, tree⟩ := field
      have hkey := h.isKey List.mem_cons_self
      cases tree with
      | scalar s =>
        have hs := h.of_mem_fields List.mem_cons_self
        exact ⟨_, _, rfl, .field hkey hs.root.1, if_neg (by simp [hkey.isPrefixOf_append])⟩
      | _ => exact ⟨_, _, rfl, .key hkey, if_neg (by simp [hkey.isPrefixOf_append])⟩

theorem YamlTree.fieldLines_container {key : Text} (ht : t.isScalar = false) (indent : ℕ) :
    fieldLines compact indent [(key, t)] =
      (indent, key ++ [':']) :: t.lines compact (indent + 2) := by
  cases t with
  | scalar => exact absurd ht.symm Bool.false_ne_true
  | _ => simp [fieldLines]

theorem YamlTree.fieldLines_cons (field : Text × YamlTree) (indent : ℕ) :
    fieldLines compact indent (field :: fields) =
      fieldLines compact indent [field] ++ fieldLines compact indent fields := by
  obtain ⟨key, tree⟩ := field
  cases tree <;> simp [fieldLines]

variable {stack base : OpenStack} {indent : ℕ}

/-- The lines of a field add it to those that are known. -/
theorem fills_field (hkey : IsKey field.1) (hreadable : field.2.Readable)
    (hfills : field.2.isScalar = false → field.2.Fills compact)
    {numbered : List (Text × ℕ)} (rest : List (Text × ℕ))
    {known : List (Text × Value Text)} (hknown : hasOwn known field.1 = false)
    (hlines : numbered.map Prod.fst = (YamlTree.fieldLines compact indent [field]).map rawLine)
    (hclose : stack.close indent = base) (hindent : base.top.indent < indent)
    (htop : base.top.container = .object known) :
    ∃ stack', yamlLines (numbered ++ rest) stack = yamlLines rest stack' ∧
      stack'.close indent =
        base.setTop (.object (known ++ [(field.1, field.2.value)])) := by
  obtain ⟨key, tree⟩ := field
  by_cases htree : tree.isScalar
  · cases tree with
    | scalar s =>
      obtain _ | ⟨⟨raw, number⟩, _ | ⟨_, _⟩⟩ := numbered
      · simp [YamlTree.fieldLines] at hlines
      · obtain rfl : raw = rawLine (indent, key ++ ':' :: ' ' :: s.print) := by
          simpa [YamlTree.fieldLines] using hlines
        have hline := Content.field hkey hreadable.root.1
        refine ⟨base.setTop (.object (known ++ [(key, s.value)])), ?_, close_of_lt hindent⟩
        rw [List.singleton_append, yamlLines, hline.yamlLine_eq,
          if_neg (by simp [hkey.isPrefixOf_append]), hclose,
          yamlField_scalar known hkey hreadable.root.2 htop hknown, Result.ok_bind]
      · simp [YamlTree.fieldLines] at hlines
    | _ => exact absurd htree Bool.false_ne_true
  · rw [Bool.not_eq_true] at htree
    obtain ⟨content, lines, hchild, hcontent, hstart⟩ :=
      hreadable.lines_eq htree compact (indent + 2)
    rw [YamlTree.fieldLines_container htree, List.map_cons, List.map_eq_cons_iff] at hlines
    obtain ⟨⟨raw, number⟩, numbered, rfl, rfl, hlines⟩ := hlines
    have hnext : (numbered ++ rest).head?.map Prod.fst = some (rawLine (indent + 2, content)) := by
      rw [hchild, List.map_cons, List.map_eq_cons_iff] at hlines
      obtain ⟨next, numbered, rfl, hnext, -⟩ := hlines
      rw [List.cons_append, List.head?_cons, Option.map_some, hnext]
    have hcontainer : childContainer (some (rawLine (indent + 2, content))) indent =
        tree.start := by
      rw [hcontent.childContainer_rawLine, ← hstart]
      simp
    -- The key opens the container, and its lines fill it.
    have hpush : (base.push ⟨indent, .field key, tree.start⟩).close (indent + 2 : ℕ) =
        base.push ⟨indent, .field key, tree.start⟩ :=
      close_of_lt (by simp [OpenStack.push])
    obtain ⟨stack', hrun, hclosed⟩ := hfills htree (indent + 2) _ _ numbered rest hlines hpush
      (by simp [OpenStack.push]) rfl
    refine ⟨stack', ?_, ?_⟩
    · rw [List.cons_append, yamlLines, (Content.key hkey).yamlLine_eq,
        if_neg (by simp [hkey.isPrefixOf_append]), hclose, hnext,
        yamlField_key hkey htop hknown, Result.ok_bind, hcontainer, hrun]
    · calc stack'.close indent = (stack'.close (indent + 2 : ℕ)).close indent :=
            (close_close (by simp)).symm
        _ = (base.push ⟨indent, .field key, tree.filled⟩).close indent := by rw [hclosed]; rfl
        _ = (base.put (.field key) tree.value).close indent := by
          rw [close_push le_rfl, YamlTree.filled_value htree]
        _ = base.setTop (.object (known ++ [(key, tree.value)])) := by
          rw [put_object htop hknown hkey.arrayIndex_eq, close_of_lt]
          exact hindent

/-- The lines of fields add them to those that are known. -/
theorem fills_fields (hkeys : (fields.map Prod.fst).Nodup) (hfields : ∀ field ∈ fields,
      IsKey field.1 ∧ field.2.Readable ∧ (field.2.isScalar = false → field.2.Fills compact))
    {numbered rest : List (Text × ℕ)}
    {known : List (Text × Value Text)} (hknown : ∀ field ∈ fields, hasOwn known field.1 = false)
    (hlines : numbered.map Prod.fst = (YamlTree.fieldLines compact indent fields).map rawLine)
    (hclose : stack.close indent = base) (hindent : base.top.indent < indent)
    (htop : base.top.container = .object known) :
    ∃ stack', yamlLines (numbered ++ rest) stack = yamlLines rest stack' ∧
      stack'.close indent =
        base.setTop (.object (known ++ YamlTree.fieldValues fields)) := by
  induction fields generalizing stack base numbered known with
  | nil =>
    obtain rfl : numbered = [] := by simpa [YamlTree.fieldLines] using hlines
    refine ⟨stack, rfl, ?_⟩
    rw [hclose, YamlTree.fieldValues, List.append_nil, ← htop]
    rfl
  | cons field fields ih =>
    obtain ⟨hkey, hreadable, hfills⟩ := hfields field List.mem_cons_self
    obtain ⟨hnotin, hnodup⟩ := List.nodup_cons.1 hkeys
    rw [YamlTree.fieldLines_cons, List.map_append, List.map_eq_append_iff] at hlines
    obtain ⟨first, others, rfl, hfirst, hothers⟩ := hlines
    obtain ⟨stack₁, hrun₁, hclose₁⟩ := fills_field hkey hreadable hfills (others ++ rest)
      (hknown field List.mem_cons_self) hfirst hclose hindent htop
    have hknown₁ : ∀ other ∈ fields,
        hasOwn (known ++ [(field.1, field.2.value)]) other.1 = false := fun other hother => by
      have hne : field.1 ≠ other.1 := fun heq =>
        hnotin (heq ▸ List.mem_map_of_mem hother)
      have hold := hknown other (List.mem_cons_of_mem _ hother)
      simpa [hasOwn, hne] using hold
    obtain ⟨stack₂, hrun₂, hclose₂⟩ := ih hnodup
      (fun other hother => hfields other (List.mem_cons_of_mem _ hother)) hknown₁ hothers hclose₁
      hindent rfl
    refine ⟨stack₂, ?_, ?_⟩
    · rw [List.append_assoc, hrun₁, hrun₂]
    · rw [hclose₂, List.append_assoc]
      rfl

theorem YamlTree.itemLines_cons (item : YamlTree) (indent : ℕ) :
    itemLines compact indent (item :: items) =
      itemLines compact indent [item] ++ itemLines compact indent items := by
  simp [itemLines]

/-- The lines of an item add it to those that are known. -/
theorem fills_item (hreadable : item.Readable) (hitem : item.ReadableItem)
    (hfills : item.isScalar = false → item.Fills compact)
    {numbered : List (Text × ℕ)} (rest : List (Text × ℕ))
    {known : List (Value Text)}
    (hlines : numbered.map Prod.fst = (YamlTree.itemLines compact indent [item]).map rawLine)
    (hclose : stack.close indent = base) (hindent : base.top.indent < indent)
    (htop : base.top.container = .array known) :
    ∃ stack', yamlLines (numbered ++ rest) stack = yamlLines rest stack' ∧
      stack'.close indent = base.setTop (.array (known ++ [item.value])) := by
  cases item with
  | scalar s =>
    obtain _ | ⟨⟨raw, number⟩, _ | ⟨_, _⟩⟩ := numbered
    · simp [YamlTree.itemLines, YamlTree.lines, afterDash] at hlines
    · obtain rfl : raw = rawLine (indent, '-' :: ' ' :: s.print) := by
        simpa [YamlTree.itemLines, YamlTree.lines, afterDash] using hlines
      refine ⟨base.setTop (.array (known ++ [s.value])), ?_, close_of_lt hindent⟩
      rw [List.singleton_append, yamlLines, (Content.scalar hreadable.root.1).yamlLine_item,
        hclose, yamlItem_scalar hreadable.root.1 hreadable.root.2 htop, Result.ok_bind]
    · simp [YamlTree.itemLines, YamlTree.lines, afterDash] at hlines
  | sequence => exact hitem.elim
  | mapping fields =>
    obtain _ | ⟨⟨key, first⟩, fields⟩ := fields
    · exact absurd rfl hreadable.root.1.1
    cases first with
    | scalar s =>
      have hkey : IsKey key := hreadable.isKey List.mem_cons_self
      have hs : (YamlTree.scalar s).Readable := hreadable.of_mem_fields List.mem_cons_self
      have hlines : numbered.map Prod.fst =
          rawLine (indent, '-' :: ' ' :: (key ++ ':' :: ' ' :: s.print)) ::
            (YamlTree.fieldLines compact (indent + 2) fields).map rawLine := by
        simpa [YamlTree.itemLines, YamlTree.lines, YamlTree.fieldLines, afterDash] using hlines
      obtain ⟨⟨raw, number⟩, numbered, rfl, rfl, hothers⟩ := List.map_eq_cons_iff.1 hlines
      -- The line of the dash does what the first line of the mapping does below it.
      have hpush : (base.push ⟨indent, .item, .object []⟩).close (indent + 2 : ℕ) =
          base.push ⟨indent, .item, .object []⟩ :=
        close_of_lt (by simp [OpenStack.push])
      obtain ⟨stack', hrun, hclosed⟩ := hfills rfl (indent + 2) _ _
        ((rawLine (indent + 2, key ++ ':' :: ' ' :: s.print), number) :: numbered) rest
        (by simp [YamlTree.lines, YamlTree.fieldLines, hothers]) hpush
        (by simp [OpenStack.push]) rfl
      refine ⟨stack', ?_, ?_⟩
      · have hfield := Content.field hkey hs.root.1
        rw [← hrun, List.cons_append, List.cons_append, yamlLines, yamlLines,
          hfield.yamlLine_item, hclose,
          yamlItem_field hkey hs.root.1 hs.root.2 htop, hfield.yamlLine_eq,
          if_neg (by simp [hkey.isPrefixOf_append]), hpush,
          yamlField_scalar [] hkey hs.root.2 rfl rfl]
        rfl
      · calc stack'.close indent = (stack'.close (indent + 2 : ℕ)).close indent :=
              (close_close (by simp)).symm
          _ = (base.push ⟨indent, .item, .object (YamlTree.fieldValues
                ((key, .scalar s) :: fields))⟩).close indent := by rw [hclosed]; rfl
          _ = (base.put .item (YamlTree.mapping ((key, .scalar s) :: fields)).value).close
                indent := by
            rw [close_push le_rfl]
            rfl
          _ = base.setTop (.array (known ++ [_])) := by
            rw [put_array htop, close_of_lt]
            exact hindent
    | _ => exact absurd hitem Bool.false_ne_true

/-- The lines of items add them to those that are known. -/
theorem fills_items (hitems : ∀ item ∈ items,
      item.Readable ∧ item.ReadableItem ∧ (item.isScalar = false → item.Fills compact))
    {numbered rest : List (Text × ℕ)}
    {known : List (Value Text)}
    (hlines : numbered.map Prod.fst = (YamlTree.itemLines compact indent items).map rawLine)
    (hclose : stack.close indent = base) (hindent : base.top.indent < indent)
    (htop : base.top.container = .array known) :
    ∃ stack', yamlLines (numbered ++ rest) stack = yamlLines rest stack' ∧
      stack'.close indent = base.setTop (.array (known ++ YamlTree.itemValues items)) := by
  induction items generalizing stack base numbered known with
  | nil =>
    obtain rfl : numbered = [] := by simpa [YamlTree.itemLines] using hlines
    refine ⟨stack, rfl, ?_⟩
    rw [hclose, YamlTree.itemValues, List.append_nil, ← htop]
    rfl
  | cons item items ih =>
    obtain ⟨hreadable, hitem, hfills⟩ := hitems item List.mem_cons_self
    rw [YamlTree.itemLines_cons, List.map_append, List.map_eq_append_iff] at hlines
    obtain ⟨first, others, rfl, hfirst, hothers⟩ := hlines
    obtain ⟨stack₁, hrun₁, hclose₁⟩ := fills_item hreadable hitem hfills (others ++ rest)
      hfirst hclose hindent htop
    obtain ⟨stack₂, hrun₂, hclose₂⟩ :=
      ih (fun other hother => hitems other (List.mem_cons_of_mem _ hother)) hothers hclose₁
        hindent rfl
    refine ⟨stack₂, ?_, ?_⟩
    · rw [List.append_assoc, hrun₁, hrun₂]
    · rw [hclose₂, List.append_assoc]
      rfl

/-- The lines of a readable container fill it. -/
theorem YamlTree.Readable.fills (h : t.Readable) (ht : t.isScalar = false) : t.Fills compact := by
  induction t using YamlTree.induction with
  | scalar => exact absurd ht.symm Bool.false_ne_true
  | sequence items ih =>
    intro indent stack base numbered rest hlines hclose hindent htop
    refine fills_items (fun item hitem => ?_) hlines hclose hindent htop
    have hreadable := h.of_mem_items hitem
    exact ⟨hreadable, h.root.2 item hitem, ih item hitem hreadable⟩
  | mapping fields ih =>
    intro indent stack base numbered rest hlines hclose hindent htop
    refine fills_fields h.root.1.2.1 (fun field hfield => ?_) (fun _ _ => rfl) hlines hclose
      hindent htop
    have hreadable := h.of_mem_fields hfield
    exact ⟨h.isKey hfield, hreadable, ih field hfield hreadable⟩

end

/-! ## What lines can make -/

/-- A value that is no container. -/
def IsAtom : Value Text → Prop
  | .array _ => False
  | .object _ _ => False
  | _ => True

/-- An atom, or a container with nothing in it. -/
def IsLight : Value Text → Prop
  | .array items => items = []
  | .object _ fields => fields = []
  | _ => True

/-- What is no sequence, and begins with a light value if it is a mapping. -/
def IsEntry : Value Text → Prop
  | .array _ => False
  | .object _ ((_, first) :: _) => IsLight first
  | _ => True

/-- Values that are made from printed lines, of whatever tree. -/
inductive Made : Value Text → Prop
  | null : Made .null
  | boolean (b : Bool) : Made (.boolean b)
  | number {q : ℚ} : JsNumber.ofRat q = .finite q → Made (.number (.finite q))
  | string (s : Text) : Made (.string s)
  | array {items : List (Value Text)} : (∀ item ∈ items, Made item) →
      (∀ item ∈ items, IsEntry item) → Made (.array items)
  | object {fields : List (Text × Value Text)} : (∀ field ∈ fields, Made field.2) →
      Made (.object .none fields)

/-- A container that was opened, and may be closed. -/
structure Frame.Sound (frame : Frame) : Prop where
  made : Made frame.container.value
  entry : frame.slot = .item → ∃ first fields, frame.container = .object (first :: fields) ∧
    IsLight first.2

/-- A key may be added to a container. -/
def Container.Lacks (container : Container) (key : Text) : Prop :=
  arrayIndex? key = none ∧ ∀ fields, container = .object fields → hasOwn fields key = false

/-- A value may be put in a container. -/
def Container.Admits (container : Container) (slot : Slot) (value : Value Text) : Prop :=
  Made value ∧ (slot = .item → IsEntry value) ∧ ∀ key, slot = .field key → container.Lacks key

/-- Containers that were opened one in the other. -/
inductive SoundFrames : Frame → List Frame → Prop
  | root {top : Frame} : top.Sound → SoundFrames top []
  | nested {top parent : Frame} {below : List Frame} : top.Sound →
      (∀ key, top.slot = .field key → parent.container.Lacks key) → SoundFrames parent below →
      SoundFrames top (parent :: below)

def OpenStack.Sound (stack : OpenStack) : Prop := SoundFrames stack.top stack.below

section

variable {value : Value Text} {slot : Slot} {container : Container} {frame top : Frame}
  {below : List Frame} {stack stack' : OpenStack} {text : Text}

theorem isLight_of_isAtom (h : IsAtom value) : IsLight value := by
  cases value with
  | array | object => exact h.elim
  | _ => trivial

theorem isEntry_of_isAtom (h : IsAtom value) : IsEntry value := by
  cases value with
  | array | object => exact h.elim
  | _ => trivial

/-- A scalar without brackets is an atom, and so are numbers as doubles. -/
theorem scalar_made (h : '[' ∉ text) : Made (scalar text) ∧ IsAtom (scalar text) := by
  have hflow : isEnclosed '[' ']' (trim text) = false := by
    rw [isEnclosed, Bool.and_eq_false_iff]
    refine .inl (beq_eq_false_iff_ne.2 fun hhead => ?_)
    exact h (mem_of_mem_trim (List.mem_of_mem_head? hhead))
  rw [scalar, scalarWithin]
  split
  · exact ⟨.null, trivial⟩
  split
  · exact ⟨.boolean _, trivial⟩
  split
  · exact ⟨.boolean _, trivial⟩
  split
  · rename_i q hq
    exact ⟨.number (number_exact hq), trivial⟩
  split
  · exact ⟨.string _, trivial⟩
  rw [hflow]
  exact ⟨.string _, trivial⟩

/-- A value is put in a container. -/
theorem Container.Admits.put_made (h : container.Admits slot value)
    (hmade : Made container.value) : Made (container.put slot value).value := by
  obtain ⟨hvalue, hentry, hlacks⟩ := h
  cases container with
  | array items =>
    cases slot with
    | item =>
      cases hmade with
      | array hitems hentries =>
        exact .array (List.forall_mem_append.2 ⟨hitems, by simpa using hvalue⟩)
          (List.forall_mem_append.2 ⟨hentries, by simpa using hentry rfl⟩)
    | _ => exact hmade
  | object fields =>
    cases slot with
    | field key =>
      obtain ⟨hindex, hnew⟩ := hlacks key rfl
      cases hmade with
      | object hfields =>
        rw [Container.put, setField_of_new (hnew fields rfl) hindex]
        exact .object (List.forall_mem_append.2 ⟨hfields, by simpa using hvalue⟩)
    | _ => exact hmade

/-- The first field of a mapping stays the first. -/
theorem Container.Admits.put_sound (h : frame.container.Admits slot value) (hframe : frame.Sound) :
    (frame.put slot value).Sound where
  made := h.put_made hframe.made
  entry := fun hslot => by
    obtain ⟨first, fields, hcontainer, hlight⟩ := hframe.entry hslot
    cases slot with
    | field key =>
      obtain ⟨hindex, hnew⟩ := h.2.2 key rfl
      refine ⟨first, fields ++ [(key, value)], ?_, hlight⟩
      rw [Frame.put, hcontainer, Container.put, setField_of_new (hnew _ hcontainer) hindex]
      rfl
    | _ => exact ⟨first, fields, by rw [Frame.put, hcontainer]; rfl, hlight⟩

theorem SoundFrames.top_sound (h : SoundFrames top below) : top.Sound := by
  cases h with
  | root h => exact h
  | nested h => exact h

theorem SoundFrames.put (h : SoundFrames top below) (hadmits : top.container.Admits slot value) :
    SoundFrames (top.put slot value) below := by
  cases h with
  | root h => exact .root (hadmits.put_sound h)
  | nested h hlacks hbelow => exact .nested (hadmits.put_sound h) hlacks hbelow

theorem Frame.Sound.isEntry (h : frame.Sound) (hslot : frame.slot = .item) :
    IsEntry frame.container.value := by
  obtain ⟨first, fields, hcontainer, hlight⟩ := h.entry hslot
  rw [hcontainer]
  exact hlight

/-- Closing containers keeps the others. -/
theorem SoundFrames.close (h : SoundFrames top below) (k : ℤ) :
    (closeFrames k top below).Sound := by
  induction below generalizing top with
  | nil => exact h
  | cons parent below ih =>
    rw [closeFrames]
    split
    · cases h with
      | nested htop hlacks hbelow => exact ih (hbelow.put ⟨htop.made, htop.isEntry, hlacks⟩)
    · exact h

theorem OpenStack.Sound.push (h : stack.Sound) (hframe : frame.Sound)
    (hlacks : ∀ key, frame.slot = .field key → stack.top.container.Lacks key) :
    (stack.push frame).Sound := .nested hframe hlacks h

theorem childContainer_made (nextRaw : Option Text) (indent : ℕ) :
    Made (childContainer nextRaw indent).value ∧
      IsLight (childContainer nextRaw indent).value := by
  have harray : Made (.array []) ∧ IsLight (.array []) := ⟨.array (by simp) (by simp), rfl⟩
  have hobject : Made (.object .none []) ∧ IsLight (.object .none []) := ⟨.object (by simp), rfl⟩
  unfold childContainer
  split
  · exact hobject
  · split
    · exact harray
    · exact hobject

theorem Content.splitPair_eq (h : Content text) : splitPair text = .ok none ∨
    ∃ key value, splitPair text = .ok (some (key, value)) ∧ arrayIndex? key = none ∧
      '[' ∉ value := by
  obtain hcolon | ⟨key, value, rfl, hkey, c, hc, hdigit⟩ := h.eq_pair
  · exact .inl (splitPair_of_notMem hcolon)
  · refine .inr ⟨key, trim value, hkey.splitPair_append value, if_neg fun hindex => ?_,
      fun hmem => ?_⟩
    · exact Bool.false_ne_true (hdigit.symm.trans (List.all_eq_true.1 hindex.2.1 c hc))
    · refine h.notMem (c := '[') rfl (List.mem_append_right _ (List.mem_cons_of_mem _ ?_))
      exact mem_of_mem_trim hmem

variable {nextRaw : Option Text}

variable {number indent : ℕ}

theorem yamlItem_sound (h : Content text) (hstack : stack.Sound)
    (hline : yamlItem ('-' :: ' ' :: text) number indent nextRaw stack = .ok stack') :
    stack'.Sound := by
  unfold yamlItem at hline
  split at hline
  · exact nomatch hline
  rename_i items htop
  simp only [List.drop_succ_cons, List.drop_zero, h.trim_eq] at hline
  obtain hpair | ⟨key, value, hpair, -, hbracket⟩ := h.splitPair_eq
  · rw [hpair, Result.ok_bind] at hline
    obtain rfl := Except.ok.inj hline
    obtain ⟨hmade, hatom⟩ := scalar_made (h.notMem (c := '[') rfl)
    exact SoundFrames.put hstack ⟨hmade, fun _ => isEntry_of_isAtom hatom, nofun⟩
  · rw [hpair, Result.ok_bind] at hline
    obtain rfl := Except.ok.inj hline
    have hfirst : ∀ first, first = (if value = [] then (childContainer nextRaw indent).value
        else scalar value) → Made first ∧ IsLight first := by
      rintro _ rfl
      split
      · exact childContainer_made nextRaw indent
      · exact (scalar_made hbracket).imp_right isLight_of_isAtom
    obtain ⟨hmade, hlight⟩ := hfirst _ rfl
    exact hstack.push ⟨.object (by simpa using hmade), fun _ => ⟨_, _, rfl, hlight⟩⟩ nofun

theorem yamlField_sound (h : Content text) (hstack : stack.Sound)
    (hline : yamlField text number indent nextRaw stack = .ok stack') : stack'.Sound := by
  unfold yamlField at hline
  split at hline
  · exact nomatch hline
  rename_i fields htop
  obtain hpair | ⟨key, value, hpair, hindex, hbracket⟩ := h.splitPair_eq
  · rw [hpair, Result.ok_bind] at hline
    exact nomatch hline
  rw [hpair, Result.ok_bind] at hline
  dsimp only at hline
  split at hline
  · exact nomatch hline
  rename_i hnew
  have hlacks : stack.top.container.Lacks key := by
    refine ⟨hindex, fun others hothers => ?_⟩
    rw [htop] at hothers
    obtain rfl := Container.object.inj hothers
    exact Bool.not_eq_true _ ▸ hnew
  have hfield : ∀ other, Slot.field key = .field other → stack.top.container.Lacks other := by
    rintro _ ⟨⟩
    exact hlacks
  split at hline
  · obtain rfl := Except.ok.inj hline
    exact hstack.push ⟨(childContainer_made nextRaw indent).1, nofun⟩ hfield
  · obtain ⟨hmade, hatom⟩ := scalar_made hbracket
    split at hline
    · rename_i items hitems
      rw [hitems] at hatom
      exact hatom.elim
    · obtain rfl := Except.ok.inj hline
      exact SoundFrames.put hstack ⟨hmade, nofun, hfield⟩

/-- A line that was printed keeps what is open sound. -/
theorem yamlLine_sound (h : Content text) (hstack : stack.Sound)
    (hline : yamlLine (rawLine (indent, text)) number nextRaw stack = .ok stack') :
    stack'.Sound := by
  have hclosed : (stack.close indent).Sound := SoundFrames.close hstack indent
  rw [h.yamlLine_eq] at hline
  split at hline
  · rename_i hdash
    obtain ⟨item, rfl, hitem⟩ := h.eq_item hdash
    exact yamlItem_sound hitem hclosed hline
  · exact yamlField_sound h hclosed hline

/-- So do all lines. -/
theorem yamlLines_sound {lines : List (ℕ × Text)} {numbered : List (Text × ℕ)}
    (hcontents : ∀ line ∈ lines, Content line.2)
    (hlines : numbered.map Prod.fst = lines.map rawLine) (hstack : stack.Sound)
    (hrun : yamlLines numbered stack = .ok stack') : stack'.Sound := by
  induction numbered generalizing lines stack with
  | nil =>
    obtain rfl := Except.ok.inj hrun
    exact hstack
  | cons line numbered ih =>
    obtain ⟨raw, number⟩ := line
    obtain ⟨⟨indent, content⟩, lines, rfl, rfl, hothers⟩ := List.map_eq_cons_iff.1 hlines.symm
    obtain ⟨hcontent, hcontents⟩ := List.forall_mem_cons.1 hcontents
    obtain ⟨stack₁, hline, hrun⟩ := Result.bind_eq_ok.1 hrun
    exact ih hcontents hothers.symm (yamlLine_sound hcontent hstack hline) hrun

end

/-! ## Documents -/

section

variable {compact : Bool} {t : YamlTree} {text : Text} {printed all : List Text} {indent : ℕ}

theorem afterDash_content {lines : List (ℕ × Text)} (h : ∀ line ∈ lines, Content line.2) :
    ∀ line ∈ afterDash indent lines, Content line.2 := by
  cases lines with
  | nil => exact h
  | cons line lines =>
    obtain ⟨hline, hlines⟩ := List.forall_mem_cons.1 h
    exact List.forall_mem_cons.2 ⟨hline.item, hlines⟩

/-- The lines of a printable tree have contents of the kinds above. -/
theorem YamlTree.lines_content (h : t.Printable) (indent : ℕ) :
    ∀ line ∈ t.lines compact indent, Content line.2 := by
  induction t using YamlTree.induction generalizing indent with
  | scalar s =>
    exact List.forall_mem_singleton.2 (.scalar (h _ (self_mem_nodes _)))
  | sequence items ih =>
    have hitems : ∀ item ∈ items, ∀ indent, ∀ line ∈ item.lines compact indent,
        Content line.2 := fun item hitem =>
      ih item hitem fun node hnode => h node (mem_sequence_nodes hitem hnode)
    clear ih h
    rw [lines]
    induction items with
    | nil => exact List.forall_mem_nil _
    | cons item items ih =>
      obtain ⟨hitem, hitems⟩ := List.forall_mem_cons.1 hitems
      rw [itemLines_cons]
      refine List.forall_mem_append.2 ⟨?_, ih hitems⟩
      cases item with
      | sequence =>
        simp only [itemLines, List.append_nil]
        split
        · exact afterDash_content (hitem _)
        · exact List.forall_mem_cons.2 ⟨.dash, hitem _⟩
      | _ =>
        simp only [itemLines, List.append_nil]
        exact afterDash_content (hitem _)
  | mapping fields ih =>
    have hfields : ∀ field ∈ fields, IsKey field.1 ∧ field.2.PrintableNode ∧
        ∀ indent, ∀ line ∈ field.2.lines compact indent, Content line.2 := fun field hfield =>
      ⟨(h _ (self_mem_nodes _)).2.2 field hfield, h _ (mem_mapping_nodes hfield (by simp)),
        ih field hfield fun node hnode => h node (mem_mapping_nodes hfield hnode)⟩
    clear ih h
    rw [lines]
    induction fields with
    | nil => exact List.forall_mem_nil _
    | cons field fields ih =>
      obtain ⟨key, tree⟩ := field
      obtain ⟨⟨hkey, hprint, hfield⟩, hothers⟩ := List.forall_mem_cons.1 hfields
      rw [fieldLines_cons]
      refine List.forall_mem_append.2 ⟨?_, ih hothers⟩
      by_cases htree : tree.isScalar = false
      · rw [fieldLines_container htree]
        exact List.forall_mem_cons.2 ⟨.key hkey, hfield _⟩
      · cases tree with
        | scalar s => exact List.forall_mem_singleton.2 (.field hkey hprint)
        | _ => exact absurd rfl htree

theorem meaningfulLines_map (text : Text) :
    (meaningfulLines text).map Prod.fst = (splitLines text).filter isMeaningful := by
  rw [meaningfulLines]
  generalize 1 = n
  induction splitLines text generalizing n with
  | nil => rfl
  | cons line lines ih =>
    rw [List.zipIdx_cons, List.filter_cons, List.filter_cons]
    split <;> simp [ih]

theorem Noise.isMeaningful_eq {line : Text} (h : Noise line) : isMeaningful line = false := by
  obtain ⟨ws, rest, rfl, hws, hrest⟩ := h
  have hspace : ∀ c ∈ ws, isSpace c := fun c hc => by
    obtain rfl | rfl := hws c hc <;> rfl
  obtain rfl | ⟨comment, rfl⟩ := hrest
  · rw [isMeaningful, trim, trimStart_append hspace]
    rfl
  · have htrim : trimStart ('#' :: comment) = '#' :: comment :=
      trimStart_of_head (by simp [isSpace])
    rw [isMeaningful, trimStart_append hspace, htrim]
    simp

/-- Without blank lines and comments what was printed is left. -/
theorem Interspersed.filter_eq (h : Interspersed printed all)
    (hprinted : ∀ line ∈ printed, isMeaningful line) : all.filter isMeaningful = printed := by
  induction h with
  | nil => rfl
  | noise hnoise _ ih =>
    rw [List.filter_cons, hnoise.isMeaningful_eq, if_neg Bool.false_ne_true, ih hprinted]
  | line _ ih =>
    obtain ⟨hline, hothers⟩ := List.forall_mem_cons.1 hprinted
    rw [List.filter_cons, hline, if_pos rfl, ih hothers]

theorem YamlTree.Renders.meaningfulLines_eq (hrenders : t.Renders compact text)
    (h : t.Printable) :
    (meaningfulLines text).map Prod.fst = (t.lines compact 0).map rawLine := by
  obtain ⟨lines, last, rfl, hlines, hlast, hinterspersed⟩ := hrenders
  rw [meaningfulLines_map, splitLines_joinLines hlines hlast]
  refine hinterspersed.filter_eq (List.forall_mem_map.2 fun line hline => ?_)
  exact (lines_content h 0 line hline).isMeaningful_rawLine

theorem YamlTree.isScalar_of_isLight (h : t.PrintableNode) (hlight : IsLight t.value) :
    t.isScalar := by
  cases t with
  | scalar => rfl
  | sequence items =>
    cases items with
    | nil => exact absurd rfl h
    | cons => exact absurd hlight (List.cons_ne_nil _ _)
  | mapping fields =>
    cases fields with
    | nil => exact absurd rfl h.1
    | cons => exact absurd hlight (List.cons_ne_nil _ _)

theorem YamlTree.readableItem_of_isEntry (h : t.Printable) (hentry : IsEntry t.value) :
    t.ReadableItem := by
  cases t with
  | scalar => trivial
  | sequence => exact hentry
  | mapping fields =>
    cases fields with
    | nil => trivial
    | cons field fields =>
      have hprint := h _ (mem_mapping_nodes (List.mem_cons_self (a := field) (l := fields))
        (self_mem_nodes _))
      exact isScalar_of_isLight hprint hentry

/-- What lines made is readable. -/
theorem YamlTree.readable_of_made (h : t.Printable) (hmade : Made t.value) :
    ∀ node ∈ t.nodes, node.ReadableNode := by
  induction t using YamlTree.induction with
  | scalar s =>
    refine List.forall_mem_singleton.2 ?_
    cases s with
    | integer n =>
      cases hmade with
      | number hn => exact hn
    | _ => trivial
  | sequence items ih =>
    simp only [value, itemValues_eq] at hmade
    cases hmade with
    | array hitems hentries =>
      rw [nodes]
      refine List.forall_mem_cons.2 ⟨fun item hitem => ?_, fun node hnode => ?_⟩
      · have hitems : item.Printable := fun node hnode => h node (mem_sequence_nodes hitem hnode)
        exact readableItem_of_isEntry hitems (hentries _ (List.mem_map_of_mem hitem))
      · obtain ⟨item, hitem, hnode⟩ := mem_itemNodes.1 hnode
        exact ih item hitem (fun node hnode => h node (mem_sequence_nodes hitem hnode))
          (hitems _ (List.mem_map_of_mem hitem)) node hnode
  | mapping fields ih =>
    simp only [value, fieldValues_eq] at hmade
    cases hmade with
    | object hfields =>
      rw [nodes]
      refine List.forall_mem_cons.2 ⟨trivial, fun node hnode => ?_⟩
      obtain ⟨field, hfield, hnode⟩ := mem_fieldNodes.1 hnode
      exact ih field hfield (fun node hnode => h node (mem_mapping_nodes hfield hnode))
        (hfields _ (List.mem_map_of_mem hfield)) node hnode

theorem Container.value_ne_scalar (container : Container) (s : YamlScalar) :
    container.value ≠ s.value := by
  cases container <;> cases s <;> exact nofun

theorem root_sound (isArray : Bool) :
    Frame.Sound ⟨-1, .root, if isArray then .array [] else .object []⟩ where
  made := by
    cases isArray
    · exact .object (by simp)
    · exact .array (by simp) (by simp)
  entry := nofun

/-- A printed tree is read back exactly if it is a readable container, and nothing in the text is
    disabled. -/
theorem parseYaml_eq_iff (hprint : t.Printable) (hrenders : t.Renders compact text) :
    parseYaml text = .ok t.value ↔ t.isScalar = false ∧ (∀ node ∈ t.nodes, node.ReadableNode) ∧
      yamlDisabled text = false := by
  have hmeaningful := hrenders.meaningfulLines_eq hprint
  constructor
  · intro hparse
    rw [parseYaml] at hparse
    split at hparse
    · exact nomatch hparse
    rename_i hdisabled
    have hmade : Made t.value ∧ t.isScalar = false := by
      split at hparse
      · rename_i hnil
        rw [hnil, List.map_nil, eq_comm, List.map_eq_nil_iff] at hmeaningful
        cases t with
        | scalar s => exact absurd hmeaningful (List.cons_ne_nil _ _)
        | _ => exact nomatch hparse
      · rename_i first rest hcons
        obtain ⟨stack, hrun, hroot⟩ := Result.bind_eq_ok.1 hparse
        rw [hcons] at hmeaningful
        have hsound : stack.Sound := by
          refine yamlLines_sound (YamlTree.lines_content hprint 0) hmeaningful ?_ hrun
          exact .root (root_sound _)
        have hclosed := (SoundFrames.close hsound (-1)).top_sound.made
        rw [← Except.ok.inj hroot]
        refine ⟨hclosed, ?_⟩
        cases t with
        | scalar s => exact absurd (Except.ok.inj hroot) (Container.value_ne_scalar _ s)
        | _ => rfl
    exact ⟨hmade.2, YamlTree.readable_of_made hprint hmade.1, by simpa using hdisabled⟩
  · rintro ⟨ht, hreadable, hdisabled⟩
    have ht' : t.Readable := ⟨hprint, hreadable⟩
    obtain ⟨content, lines, hlines, hcontent, hstart⟩ := ht'.lines_eq ht compact 0
    obtain ⟨stack, hrun, hclosed⟩ := ht'.fills ht 0 ⟨⟨-1, .root, t.start⟩, []⟩ _
      (meaningfulLines text) [] hmeaningful rfl (show (-1 : ℤ) < 0 by decide) rfl
    have hroot : stack.root = t.value := by
      rw [OpenStack.root, ← close_close (show (-1 : ℤ) ≤ (0 : ℕ) by decide), hclosed]
      exact YamlTree.filled_value ht
    rw [hlines, List.map_cons, List.map_eq_cons_iff] at hmeaningful
    obtain ⟨first, rest, hcons, hfirst, -⟩ := hmeaningful
    rw [parseYaml, hdisabled, if_neg Bool.false_ne_true, hcons]
    simp only [hfirst, hcontent.trimStart_rawLine, hstart]
    rw [List.append_nil, hcons] at hrun
    rw [hrun]
    exact congrArg Except.ok hroot

/-- A list of mappings, with a comment above it. -/
def pairs : YamlTree :=
  .mapping [(['a'],
    .sequence [.mapping [(['b'], .scalar .null), (['c'], .scalar (.boolean true))]])]

def pairsText : Text :=
  joinLines [(['#', ' ', 'a'], .lf), (['a', ':'], .crlf),
    ([' ', ' ', '-', ' ', 'b', ':', ' ', 'n', 'u', 'l', 'l'], .lf)]
    [' ', ' ', ' ', ' ', 'c', ':', ' ', 't', 'r', 'u', 'e']

theorem pairs_printable : pairs.Printable := by
  simp [YamlTree.Printable, pairs, YamlTree.nodes, YamlTree.itemNodes, YamlTree.fieldNodes,
    YamlTree.PrintableNode]
  refine ⟨by decide, ?_⟩
  rintro _ _ (⟨rfl, -⟩ | ⟨rfl, -⟩) <;> decide

theorem pairs_renders : pairs.Renders false pairsText := by
  refine ⟨_, _, rfl, ?_, ?_, ?_⟩
  · simp [Unbroken]
  · simp [Unbroken]
  · exact .noise ⟨[], _, rfl, by simp, .inr ⟨_, rfl⟩⟩ (.line (.line (.line .nil)))

theorem parseYaml_eq_iff_pairs : parseYaml pairsText = .ok pairs.value :=
  (parseYaml_eq_iff pairs_printable pairs_renders).2 ⟨rfl, by
    simp [pairs, YamlTree.nodes, YamlTree.itemNodes, YamlTree.fieldNodes, YamlTree.ReadableNode,
      YamlTree.ReadableItem, YamlTree.isScalar], rfl⟩

/-- An item that begins with a key that has a mapping for its value. -/
def nestedItem : YamlTree := .sequence [.mapping [(['a'], .mapping [(['b'], .scalar .null)])]]

def nestedItemText : Text :=
  joinLines [(['-', ' ', 'a', ':'], .lf)] [' ', ' ', ' ', ' ', 'b', ':', ' ', 'n', 'u', 'l', 'l']

theorem nestedItem_printable : nestedItem.Printable := by
  simp [YamlTree.Printable, nestedItem, YamlTree.nodes, YamlTree.itemNodes, YamlTree.fieldNodes,
    YamlTree.PrintableNode]
  decide

theorem nestedItem_renders : nestedItem.Renders true nestedItemText := by
  refine ⟨_, _, rfl, ?_, ?_, ?_⟩
  · simp [Unbroken]
  · simp [Unbroken]
  · exact .line (.line .nil)

/-- What belongs to the key is put beside it. -/
theorem parseYaml_nestedItem : nestedItem.Printable ∧ nestedItem.Renders true nestedItemText ∧
    parseYaml nestedItemText =
      .ok (.array [.object .none [(['a'], .object .none []), (['b'], .null)]]) ∧
    parseYaml nestedItemText ≠ .ok nestedItem.value := by
  refine ⟨nestedItem_printable, nestedItem_renders, rfl, fun h => ?_⟩
  have hvalue : (Except.ok (.array [.object .none [(['a'], .object .none []), (['b'], .null)]]) :
      PreviewResult (Value Text)) = .ok nestedItem.value := h
  simp [nestedItem, YamlTree.value, YamlTree.itemValues, YamlTree.fieldValues] at hvalue

end

end Tabulark.Preview
