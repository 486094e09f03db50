import StaticSite.Yaml.Token

/-!
# YAML nodes

The nodes of a YAML text as they are written, with aliases in place. An alias names an anchor by number, and
the numbers are looked up when the whole document has been read.
-/
namespace StaticSite.Yaml

inductive Node where
  | scalar (tag : Option Text) (plain : Bool) (t : Text)
  | sequence (tag : Option Text) (items : List Node)
  | mapping (tag : Option Text) (pairs : List (Node × Node))
  | reference (anchor : Nat)

/-- What a plain scalar of no characters stands for. -/
def Node.empty : Node := .scalar none true []

/-- An anchored node with the number of its anchor; `order` counts the anchors of the document. -/
structure Anchored where
  anchor : Nat
  order : Nat
  node : Node

/-- The reading of nodes from tokens. -/
structure Reader where
  tokens : List Token
  /-- What handles of tags stand for. -/
  handles : List (Text × Text)
  /-- The numbers of the names of anchors. -/
  names : List (Text × Nat)
  /-- The number of anchors so far. -/
  anchors : Nat
  anchored : List Anchored

namespace Reader

def defaultHandles : List (Text × Text) :=
  [(['!'], ['!']), (['!', '!'], "tag:yaml.org,2002:".toList)]

def start (tokens : List Token) : Reader := ⟨tokens, defaultHandles, [], 0, []⟩

def drop (r : Reader) : Reader := { r with tokens := r.tokens.tail }

/-- Gives a name the number that the next new name would get. A name that is given again thus shares its
number with the next new name. -/
def anchor (name : Text) (r : Reader) : Nat × Reader :=
  let n := r.names.length
  (n, { r with
    names := if r.names.any (·.1 == name) then
        r.names.map fun (k, v) => if k = name then (k, n) else (k, v)
      else (name, n) :: r.names,
    anchors := r.anchors + 1 })

/-- The properties in front of a node. -/
structure Properties where
  /-- The number of the anchor, and its place among the anchors. -/
  anchor : Option (Nat × Nat)
  tag : Option Text

/-- The tag that a handle and a suffix stand for. -/
def resolveTag? (handle suffix : Text) (r : Reader) : Option Text :=
  if handle.isEmpty then some suffix else (r.handles.lookup handle).map (· ++ suffix)

def readAnchor (name : Text) (r : Reader) : (Nat × Nat) × Reader :=
  let (n, next) := r.drop.anchor name
  ((n, r.anchors), next)

/-- Reads an anchor and a tag, in either order. -/
def properties? (r : Reader) : Option (Properties × Reader) :=
  match r.tokens with
  | .anchor name :: .tag handle suffix :: _ => do
    let tag ← r.resolveTag? handle suffix
    let (anchor, r) := r.readAnchor name
    some (⟨some anchor, some tag⟩, r.drop)
  | .anchor name :: _ =>
    let (anchor, r) := r.readAnchor name
    some (⟨some anchor, none⟩, r)
  | .tag handle suffix :: .anchor name :: _ => do
    let tag ← r.resolveTag? handle suffix
    let (anchor, r) := r.drop.readAnchor name
    some (⟨some anchor, some tag⟩, r)
  | .tag handle suffix :: _ => do
    let tag ← r.resolveTag? handle suffix
    some (⟨none, some tag⟩, r.drop)
  | _ => some (⟨none, none⟩, r)

/-- Keeps a node under its anchor. -/
def keep (p : Properties) (node : Node) (r : Reader) : Reader :=
  match p.anchor with
  | none => r
  | some (anchor, order) => { r with anchored := ⟨anchor, order, node⟩ :: r.anchored }

/-- A scalar; the tag that stands for no tag makes it a plain one. -/
def scalarNode (tag : Option Text) (plain : Bool) (t : Text) : Node :=
  if tag = some ['!'] then .scalar none plain t else .scalar tag plain t

/-- Where a node stands, which decides what nodes may stand there. -/
inductive Place where
  | block
  /-- The key or value of a block mapping, at which a sequence may start without indentation. -/
  | pair
  | flow
deriving DecidableEq

def endsPair : List Token → Bool
  | .key :: _ => true
  | .value :: _ => true
  | .blockEnd :: _ => true
  | _ => false

def endsItem : List Token → Bool
  | .item :: _ => true
  | .blockEnd :: _ => true
  | _ => false

def endsBracketPart : List Token → Bool
  | .comma :: _ => true
  | .bracketEnd :: _ => true
  | _ => false

def endsBracePart : List Token → Bool
  | .comma :: _ => true
  | .braceEnd :: _ => true
  | _ => false

def atValue : List Token → Bool
  | .value :: _ => true
  | _ => false

mutual

/-- Reads a node. -/
def node? : Nat → Place → Reader → Option (Node × Reader)
  | 0, _, _ => none
  | fuel + 1, place, r =>
    match r.tokens with
    | .reference name :: _ => do some (.reference (← r.names.lookup name), r.drop)
    | _ => do
      let (p, r) ← r.properties?
      let (node, r) ← content? fuel place p r
      some (node, r.keep p node)

/-- Reads what follows the properties of a node. -/
def content? : Nat → Place → Properties → Reader → Option (Node × Reader)
  | 0, _, _, _ => none
  | fuel + 1, place, p, r =>
    match r.tokens with
    | .scalar plain t :: _ => some (scalarNode p.tag plain t, r.drop)
    | .bracketStart :: _ => do
      let (items, r) ← bracketItems? fuel true r.drop
      some (.sequence p.tag items, r)
    | .braceStart :: _ => do
      let (pairs, r) ← bracePairs? fuel true r.drop
      some (.mapping p.tag pairs, r)
    | .item :: _ =>
      if place = .pair then do
        let (items, r) ← looseItems? fuel r
        some (.sequence p.tag items, r)
      else emptyContent? p r
    | .sequenceStart :: _ =>
      if place = .flow then emptyContent? p r
      else do
        let (items, r) ← blockItems? fuel r.drop
        some (.sequence p.tag items, r)
    | .mappingStart :: _ =>
      if place = .flow then emptyContent? p r
      else do
        let (pairs, r) ← blockPairs? fuel r.drop
        some (.mapping p.tag pairs, r)
    | _ => emptyContent? p r

/-- A node of properties alone. -/
def emptyContent? (p : Properties) (r : Reader) : Option (Node × Reader) :=
  if p.anchor.isSome || p.tag.isSome then some (.scalar p.tag true [], r) else none

/-- Reads the items of an indented block sequence. -/
def blockItems? : Nat → Reader → Option (List Node × Reader)
  | 0, _ => none
  | fuel + 1, r =>
    match r.tokens with
    | .item :: rest => do
      let (node, r) ← if endsItem rest then some (Node.empty, r.drop) else node? fuel .block r.drop
      let (nodes, r) ← blockItems? fuel r
      some (node :: nodes, r)
    | .blockEnd :: _ => some ([], r.drop)
    | _ => none

/-- Reads the items of a sequence that is not indented. -/
def looseItems? : Nat → Reader → Option (List Node × Reader)
  | 0, _ => none
  | fuel + 1, r =>
    match r.tokens with
    | .item :: rest => do
      let (node, r) ←
        if endsItem rest || endsPair rest then some (Node.empty, r.drop) else node? fuel .block r.drop
      let (nodes, r) ← looseItems? fuel r
      some (node :: nodes, r)
    | _ => some ([], r)

/-- Reads the pairs of a block mapping. -/
def blockPairs? : Nat → Reader → Option (List (Node × Node) × Reader)
  | 0, _ => none
  | fuel + 1, r =>
    match r.tokens with
    | .key :: rest => do
      let (key, r) ← if endsPair rest then some (Node.empty, r.drop) else node? fuel .pair r.drop
      let (value, r) ← blockValue? fuel r
      let (pairs, r) ← blockPairs? fuel r
      some ((key, value) :: pairs, r)
    | .blockEnd :: _ => some ([], r.drop)
    | _ => none

def blockValue? : Nat → Reader → Option (Node × Reader)
  | 0, _ => none
  | fuel + 1, r =>
    match r.tokens with
    | .value :: rest => if endsPair rest then some (Node.empty, r.drop) else node? fuel .pair r.drop
    | _ => some (Node.empty, r)

/-- Reads the items of a sequence in brackets. An item may be a single pair. -/
def bracketItems? : Nat → Bool → Reader → Option (List Node × Reader)
  | 0, _, _ => none
  | fuel + 1, first, r =>
    match r.tokens with
    | .bracketEnd :: _ => some ([], r.drop)
    | tokens => do
      let r ← if first then some r else match tokens with
        | .comma :: _ => some r.drop
        | _ => none
      match r.tokens with
      | .bracketEnd :: _ => some ([], r.drop)
      | .key :: _ =>
        let (pair, r) ← bracketPair? fuel r.drop
        let (nodes, r) ← bracketItems? fuel false r
        some (.mapping none [pair] :: nodes, r)
      | _ =>
        let (node, r) ← node? fuel .flow r
        let (nodes, r) ← bracketItems? fuel false r
        some (node :: nodes, r)

/-- Reads a pair that is an item of a sequence. The mark that stands where the key is missing is passed
over. -/
def bracketPair? : Nat → Reader → Option ((Node × Node) × Reader)
  | 0, _ => none
  | fuel + 1, r => do
    let (key, r) ←
      if atValue r.tokens || endsBracketPart r.tokens then some (Node.empty, r.drop)
      else node? fuel .flow r
    match r.tokens with
    | .value :: rest =>
      let (value, r) ←
        if endsBracketPart rest then some (Node.empty, r.drop) else node? fuel .flow r.drop
      some ((key, value), r)
    | _ => some ((key, .empty), r)

/-- Reads the pairs of a mapping in braces. A key without a mark has no value. -/
def bracePairs? : Nat → Bool → Reader → Option (List (Node × Node) × Reader)
  | 0, _, _ => none
  | fuel + 1, first, r =>
    match r.tokens with
    | .braceEnd :: _ => some ([], r.drop)
    | tokens => do
      let r ← if first then some r else match tokens with
        | .comma :: _ => some r.drop
        | _ => none
      match r.tokens with
      | .braceEnd :: _ => some ([], r.drop)
      | .key :: rest =>
        let (key, r) ←
          if atValue rest || endsBracePart rest then some (Node.empty, r.drop)
          else node? fuel .flow r.drop
        let (value, r) ← braceValue? fuel r
        let (pairs, r) ← bracePairs? fuel false r
        some ((key, value) :: pairs, r)
      | _ =>
        let (key, r) ← node? fuel .flow r
        let (pairs, r) ← bracePairs? fuel false r
        some ((key, .empty) :: pairs, r)

def braceValue? : Nat → Reader → Option (Node × Reader)
  | 0, _ => none
  | fuel + 1, r =>
    match r.tokens with
    | .value :: rest =>
      if endsBracePart rest then some (Node.empty, r.drop) else node? fuel .flow r.drop
    | _ => some (Node.empty, r)

end

/-! ## Documents -/

/-- Takes in the directives in front of a document. No version and no handle is given twice, and only two
versions are known. -/
def directives? : Nat → Bool → List (Text × Text) → Reader → Option Reader
  | 0, _, _, _ => none
  | fuel + 1, version, given, r =>
    match r.tokens with
    | .directive (.version major minor) :: _ =>
      if version || major != 1 || (minor != 1 && minor != 2) then none
      else directives? fuel true given r.drop
    | .directive (.handle name expansion) :: _ =>
      if given.any (·.1 == name) then none
      else directives? fuel version ((name, expansion) :: given) r.drop
    | _ => some { r with handles := given ++ defaultHandles }

/-- Reads the root of a document that has been started by its mark. -/
def markedRoot? (r : Reader) : Option (Node × Reader) :=
  match r.tokens with
  | [] => some (.empty, r)
  | .documentStart :: _ => some (.empty, r)
  | .documentEnd :: _ => some (.empty, r)
  | .directive _ :: _ => some (.empty, r)
  | _ => node? (3 * r.tokens.length + 3) .block r

/-- Reads the root of the only document. -/
def root? (r : Reader) : Option (Node × Reader) :=
  let marked := match r.tokens with
    | .directive _ :: _ => true
    | .documentStart :: _ => true
    | _ => false
  if marked then do
    let r ← directives? (r.tokens.length + 1) false [] r
    match r.tokens with
    | .documentStart :: _ => markedRoot? r.drop
    | _ => none
  else node? (3 * r.tokens.length + 3) .block r

/-- Whether a document may end here for good: end marks are all that is left. -/
def atEnd (r : Reader) : Bool := r.tokens.all fun
  | .documentEnd => true
  | _ => false

end Reader

/-- A document that has been read. -/
structure Source where
  root : Node
  anchored : List Anchored

/-- Reads the document of a text: nothing is there, when there are no tokens. -/
def Source.read? (t : Text) : Option (Option Source) := do
  let tokens ← tokens? t
  if tokens.isEmpty then some none
  else
    let (root, r) ← Reader.root? (.start tokens)
    if r.atEnd then some (some ⟨root, r.anchored⟩) else none

end StaticSite.Yaml
