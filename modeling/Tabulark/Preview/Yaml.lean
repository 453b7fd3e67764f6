import Tabulark.Preview.Scalars

/-!
# The parser of block YAML

A document is parsed line by line. The containers that a line may add to are on a
stack, each with the indentation of the line that opened it; a line first closes
those that are not indented less. The first key of an item of a sequence is on the
line of its dash. If it has a container for its value, that is not put on the stack.
-/

namespace Tabulark.Preview

open Text

/-! ## What is refused -/

/-- Whether a tag, an anchor or an alias comes next. -/
def beginsTag (s : Text) : Bool :=
  match trimStart s with
  | c :: _ => c == '!' || c == '&' || c == '*'
  | [] => false

def isLineTerminator (c : Char) : Bool :=
  c == '\n' || c == '\r' || c.toNat == 0x2028 || c.toNat == 0x2029

/-- Whether a line begins with a tag, an anchor or an alias, maybe after a document marker. -/
def hasTag : Bool → Text → Bool
  | _, [] => false
  | atStart, c :: rest =>
    let line := c :: rest
    atStart && (beginsTag line || (['-', '-', '-'].isPrefixOf line && beginsTag (line.drop 3))) ||
      hasTag (isLineTerminator c) rest

/-- Whether there is a merge key. -/
def hasMergeKey : Text → Bool
  | [] => false
  | c :: rest =>
    (c == '<' && rest.head? == some '<' && (trimStart (rest.drop 1)).head? == some ':') ||
      hasMergeKey rest

/-- Whether a text has something that is disabled. -/
def yamlDisabled (text : Text) : Bool := hasTag true text || hasMergeKey text

/-! ## Open containers -/

/-- A container to which lines add. -/
inductive Container
  | array (items : List (Value Text))
  | object (fields : List (Text × Value Text))

def Container.value : Container → Value Text
  | array items => .array items
  | object fields => .object .none fields

/-- Where a container is in the one that it is in, if there is one. -/
inductive Slot
  | root
  | item
  | field (key : Text)
  deriving DecidableEq, Repr

/-- A container on the stack. It is put in its slot when it is closed. -/
structure Frame where
  indent : ℤ
  slot : Slot
  container : Container

/-- Puts a value in a container. -/
def Container.put (container : Container) (slot : Slot) (value : Value Text) : Container :=
  match container, slot with
  | .array items, .item => .array (items ++ [value])
  | .object fields, .field key => .object (setField arrayIndex? fields key value)
  | container, _ => container

def Frame.put (parent : Frame) (slot : Slot) (value : Value Text) : Frame :=
  { parent with container := parent.container.put slot value }

/-- The open containers: the last one that was opened, and those that it is in. -/
structure OpenStack where
  top : Frame
  below : List Frame

/-- Closes containers until the last one is indented less, or there is only one. -/
def closeFrames (indent : ℤ) (top : Frame) : List Frame → OpenStack
  | [] => ⟨top, []⟩
  | parent :: below =>
    if indent ≤ top.indent then
      closeFrames indent (parent.put top.slot top.container.value) below
    else ⟨top, parent :: below⟩

def OpenStack.close (stack : OpenStack) (indent : ℤ) : OpenStack :=
  closeFrames indent stack.top stack.below

def OpenStack.push (stack : OpenStack) (frame : Frame) : OpenStack :=
  ⟨frame, stack.top :: stack.below⟩

def OpenStack.put (stack : OpenStack) (slot : Slot) (value : Value Text) : OpenStack :=
  { stack with top := stack.top.put slot value }

/-- What all the containers are in. -/
def OpenStack.root (stack : OpenStack) : Value Text := (stack.close (-1)).top.container.value

/-! ## Lines -/

/-- The container for the value of a key, given the next line. -/
def childContainer (nextRaw : Option Text) (indent : ℕ) : Container :=
  match nextRaw with
  | none => .object []
  | some nextRaw =>
    if indent < indentation nextRaw ∧ ['-', ' '].isPrefixOf (trimStart nextRaw) then .array []
    else .object []

/-- Adds an item to a sequence. -/
def yamlItem (content : Text) (number indent : ℕ) (nextRaw : Option Text) (stack : OpenStack) :
    PreviewResult OpenStack :=
  match stack.top.container with
  | .object _ => .error (parseFailed s!"Unexpected YAML sequence item on line {number}")
  | .array _ => do
    let item := trim (content.drop 2)
    match ← splitPair item with
    | some (key, value) =>
      let first := if value = [] then (childContainer nextRaw indent).value else scalar value
      pure (stack.push ⟨indent, .item, .object [(key, first)]⟩)
    | none => pure (stack.put .item (scalar item))

/-- Adds a key to a mapping. Its value is open if it is a container. -/
def yamlField (content : Text) (number indent : ℕ) (nextRaw : Option Text) (stack : OpenStack) :
    PreviewResult OpenStack :=
  match stack.top.container with
  | .array _ => .error (parseFailed s!"Expected a YAML sequence item on line {number}")
  | .object fields => do
    match ← splitPair content with
    | none => .error (parseFailed s!"Expected a YAML key/value pair on line {number}")
    | some (key, value) =>
      if hasOwn fields key then
        .error (parseFailed s!"Duplicate YAML key '{String.ofList key}' on line {number}")
      else if value = [] then
        pure (stack.push ⟨indent, .field key, childContainer nextRaw indent⟩)
      else
        match scalar value with
        | .array items => pure (stack.push ⟨indent, .field key, .array items⟩)
        | value => pure (stack.put (.field key) value)

/-- Parses a line. -/
def yamlLine (raw : Text) (number : ℕ) (nextRaw : Option Text) (stack : OpenStack) :
    PreviewResult OpenStack :=
  let indent := indentation raw
  if '\t' ∈ raw.take indent then
    .error (parseFailed s!"Tabs are not allowed for YAML indentation on line {number}")
  else
    let content := stripYamlComment (trim raw)
    let stack := stack.close indent
    if ['-', ' '].isPrefixOf content then yamlItem content number indent nextRaw stack
    else yamlField content number indent nextRaw stack

/-- Parses lines, each of which is numbered. -/
def yamlLines : List (Text × ℕ) → OpenStack → PreviewResult OpenStack
  | [], stack => .ok stack
  | (raw, number) :: rest, stack => do
    yamlLines rest (← yamlLine raw number (rest.head?.map Prod.fst) stack)

/-- Whether a line is neither blank nor a comment. -/
def isMeaningful (raw : Text) : Bool :=
  trim raw ≠ [] && !(['#'].isPrefixOf (trimStart raw))

/-- The lines that mean something, with their numbers. -/
def meaningfulLines (text : Text) : List (Text × ℕ) :=
  ((splitLines text).zipIdx 1).filter fun line => isMeaningful line.1

/-- Parses a document. -/
def parseYaml (text : Text) : PreviewResult (Value Text) :=
  if yamlDisabled text then
    .error (parseFailed "YAML tags, anchors, aliases, and merge keys are disabled")
  else
    match meaningfulLines text with
    | [] => .ok .null
    | first :: rest => do
      let root : Container :=
        if ['-', ' '].isPrefixOf (trimStart first.1) then .array [] else .object []
      pure (← yamlLines (first :: rest) ⟨⟨-1, .root, root⟩, []⟩).root

end Tabulark.Preview
