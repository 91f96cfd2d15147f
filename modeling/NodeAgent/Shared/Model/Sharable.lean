import NodeAgent.Xray.Model.Document
import NodeAgent.Shared.Model.Manager
/-!
# The inbounds a customer is shown

`SharableInbounds` of `shared/manager.go`: the inbounds of the running
configuration, those with a forced tag if there are any, each with the
private key of Reality taken out and the public key put in. It reads the
document again, not what `NewConfig` has decoded from it: the array as raw
messages, and each of them as a Go map whose keys are looked up as they
are spelt.
-/

namespace NodeAgent

open GoJson

/-- The public key of a private one. -/
def realityPublicKey (K : DocExternals) (privB64 : String) : Option String :=
  let trimmed := String.ofList (privB64.toList.reverse.dropWhile (· = '=')).reverse
  match Base64.decodeRawURL trimmed with
  | none => none
  | some priv => if priv.length ≠ 32 then none else (K.x25519 priv).map Base64.encodeRawURL

/-- What is done to the map of an inbound, key by key. -/
def redactReality (K : DocExternals) (m : List (String × Value)) : List (String × Value) :=
  match m.lookup "streamSettings" with
  | some (.obj ss) =>
    match ss.lookup "realitySettings" with
    | some (.obj rs) =>
      match rs.lookup "privateKey" with
      | some (.str pk) =>
        if pk ≠ "" then
          let rs := match realityPublicKey K pk with
            | some pub => put "publicKey" (.str pub) rs
            | none => rs
          put "streamSettings" (.obj (put "realitySettings" (.obj (delete "privateKey" rs)) ss)) m
        else m
      | _ => m
    | _ => m
  | _ => m

/-- An inbound that is no map, or has a number out of range, is given out
as it is. -/
def redactInboundSecrets (K : DocExternals) (raw : Value) : Value :=
  match intoMap K.float none raw with
  | none => raw
  | some none => .null
  | some (some m) => .obj (redactReality K m)

/-- A section of a document that only its inbounds are read from, as raw
messages. -/
def rawField (s : Slice Value) (k : String) (v : Value) : Option (Slice Value) :=
  if isField "inbounds" k then intoSlice .null (fun _ v => some v) s v else some s

/-- The raw inbounds of a document. -/
def rawInbounds (d : Value) : Option (List Value) :=
  (intoStruct rawField ⟨[], 0⟩ d).map Slice.elems

def metaField (tag : String) (k : String) (v : Value) : Option String :=
  if isField "tag" k then intoString tag v else some tag

/-- The tag of a raw inbound. -/
def metaTag : Value → Option String :=
  intoStruct metaField ""

/-- Whether a raw inbound has one of the forced tags. -/
def isForced (forceInbounds : List String) (ib : Value) : Bool :=
  match metaTag ib with
  | some tag => tag ∈ forceInbounds
  | none => false

/-- The inbounds with a forced tag, or all where there are none. -/
def keepInbounds (forceInbounds : List String) (inbounds : List Value) : List Value :=
  if 0 < forceInbounds.length then
    let filtered := inbounds.filter (isForced forceInbounds)
    if 0 < filtered.length then filtered else inbounds
  else inbounds

/-- The error of `SharableInbounds`. -/
inductive SharableErr
  /-- "parse config: %w" -/
  | parseConfig

/-- `SharableInbounds`. -/
def Manager.sharableInbounds (K : DocExternals) (m : Manager) : Except SharableErr Value :=
  if m.config = "" then .ok (.obj [("inbounds", .arr [])])
  else
    match (K.parse m.config).bind rawInbounds with
    | none => .error .parseConfig
    | some inbounds =>
      .ok (.obj [("inbounds",
        .arr ((keepInbounds m.forceInbounds inbounds).map (redactInboundSecrets K)))])

end NodeAgent
