import NodeAgent.Common.GoJson
/-!
# A configuration as it is decoded

The inbounds of `Config` in `backend/xray/config.go`, as `json.Unmarshal`
fills them from a document, and what `NewConfig` then does with them. A
document may have a section or a field more than once, and then each is
decoded on top of the one before.
-/

namespace NodeAgent

open GoJson

/-- Code outside the repository that documents go through. -/
structure DocExternals where
  /-- The document a text is, if it is JSON. -/
  parse : String → Option Value
  parse_empty : parse "" = none
  /-- A number that has been a `float64`. -/
  float : String → Option String
  /-- Whether the sections of a configuration besides its inbounds
  decode. -/
  sections : List (String × Value) → Bool
  /-- `curve25519.X25519` on the base point. -/
  x25519 : List UInt8 → Option (List UInt8)

/-- `Inbound`, as far as it is decoded. -/
structure InboundDoc where
  tag : String
  listen : String
  port : Value
  protocol : String
  settings : Option (List (String × Value))
  streamSettings : Option (List (String × Value))
  sniffing : Value
  allocation : Option (List (String × Value))

namespace InboundDoc

/-- An inbound nothing has been decoded into. -/
def zero : InboundDoc :=
  ⟨"", "", .null, "", none, none, .null, none⟩

/-- A member of its object; a member that is no field is passed over. -/
def field (float : String → Option String) (i : InboundDoc) (k : String) (v : Value) :
    Option InboundDoc :=
  if isField "tag" k then (intoString i.tag v).map fun x => { i with tag := x }
  else if isField "listen" k then (intoString i.listen v).map fun x => { i with listen := x }
  else if isField "port" k then (generic float v).map fun x => { i with port := x }
  else if isField "protocol" k then (intoString i.protocol v).map fun x => { i with protocol := x }
  else if isField "settings" k then
    (intoMap float i.settings v).map fun x => { i with settings := x }
  else if isField "streamSettings" k then
    (intoMap float i.streamSettings v).map fun x => { i with streamSettings := x }
  else if isField "sniffing" k then (generic float v).map fun x => { i with sniffing := x }
  else if isField "allocate" k then
    (intoMap float i.allocation v).map fun x => { i with allocation := x }
  else some i

/-- The string at `StreamSettings.realitySettings.privateKey`. -/
def privateKey (i : InboundDoc) : Option String :=
  ((i.streamSettings.bind fun m => m.lookup "realitySettings").bind fun v =>
    v.get "privateKey").bind Value.string

end InboundDoc

/-- A section of a configuration: the inbounds are an array of pointers. -/
def configField (float : String → Option String) (s : Slice (Option InboundDoc)) (k : String)
    (v : Value) : Option (Slice (Option InboundDoc)) :=
  if isField "inbounds" k then
    intoSlice none (intoPointer InboundDoc.zero (intoStruct (InboundDoc.field float))) s v
  else some s

/-- The sections of a document besides the inbounds. -/
def otherSections : Value → List (String × Value)
  | .obj ms => ms.filter fun p => !isField "inbounds" p.1
  | _ => []

/-- How `NewConfig` ends without a configuration. -/
inductive NewConfigErr
  /-- `json.Unmarshal` fails. -/
  | unmarshal
  /-- An inbound is `null`, and the loop that gives it its clients reads
  through a nil pointer. -/
  | nilInbound

/-- The inbounds of `NewConfig`. -/
def newConfig (K : DocExternals) (config : String) : Except NewConfigErr (List InboundDoc) :=
  match K.parse config with
  | none => .error .unmarshal
  | some d =>
    match intoStruct (configField K.float) ⟨[], 0⟩ d with
    | none => .error .unmarshal
    | some s =>
      if !K.sections (otherSections d) then .error .unmarshal
      else
        match s.elems.mapM id with
        | none => .error .nilInbound
        | some inbounds => .ok inbounds

end NodeAgent
