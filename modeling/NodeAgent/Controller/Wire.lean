import NodeAgent.Common.Protobuf
import NodeAgent.Controller.Model.Sync
/-!
# The messages of a chunked sync on the wire

`UsersChunk` of `common/service.proto` and the messages inside it, as far
as they are modelled: the settings of WireGuard, field five of a proxy, are
another backend's. Their encoding is what the chunked sync over REST
assumes of protobuf.
-/

namespace NodeAgent

open Protobuf

namespace Proto

def vmess : Codec Vmess where
  fields v := text 1 v.id
  ofFields fs := (readText 1 fs).map Vmess.mk
  ofFields_fields v _ := by
    rw [readText_eq (s := v.id) (by simp)]
    rfl

def vless : Codec Vless where
  fields v := text 1 v.id ++ text 2 v.flow
  ofFields fs := (readText 1 fs).bind fun id => (readText 2 fs).map fun flow => ⟨id, flow⟩
  ofFields_fields v _ := by
    rw [readText_eq (s := v.id) (by simp), readText_eq (s := v.flow) (by simp)]
    rfl

def trojan : Codec Trojan where
  fields t := text 1 t.password
  ofFields fs := (readText 1 fs).map Trojan.mk
  ofFields_fields t _ := by
    rw [readText_eq (s := t.password) (by simp)]
    rfl

def shadowsocks : Codec Shadowsocks where
  fields s := text 1 s.password ++ text 2 s.method
  ofFields fs :=
    (readText 1 fs).bind fun password => (readText 2 fs).map fun method => ⟨password, method⟩
  ofFields_fields s _ := by
    rw [readText_eq (s := s.password) (by simp), readText_eq (s := s.method) (by simp)]
    rfl

def hysteria : Codec Hysteria where
  fields h := text 1 h.auth
  ofFields fs := (readText 1 fs).map Hysteria.mk
  ofFields_fields h _ := by
    rw [readText_eq (s := h.auth) (by simp)]
    rfl

def proxy : Codec Proxy where
  fields p :=
    message vmess 1 p.vmess ++ message vless 2 p.vless ++ message trojan 3 p.trojan ++
      message shadowsocks 4 p.shadowsocks ++ message hysteria 6 p.hysteria
  ofFields fs := do
    let vmess ← readMessage vmess 1 fs
    let vless ← readMessage vless 2 fs
    let trojan ← readMessage trojan 3 fs
    let shadowsocks ← readMessage shadowsocks 4 fs
    let hysteria ← readMessage hysteria 6 fs
    return ⟨vmess, vless, trojan, shadowsocks, hysteria⟩
  ofFields_fields p h := by
    rw [readMessage_eq (o := p.vmess) h (by simp), readMessage_eq (o := p.vless) h (by simp),
      readMessage_eq (o := p.trojan) h (by simp), readMessage_eq (o := p.shadowsocks) h (by simp),
      readMessage_eq (o := p.hysteria) h (by simp)]
    rfl

def user : Codec User where
  fields u := text 1 u.email ++ message proxy 2 u.proxies ++ texts 3 u.inbounds
  ofFields fs := do
    let email ← readText 1 fs
    let proxies ← readMessage proxy 2 fs
    let inbounds ← readTexts 3 fs
    return ⟨email, proxies, inbounds⟩
  ofFields_fields u h := by
    rw [readText_eq (s := u.email) (by simp), readMessage_eq (o := u.proxies) h (by simp),
      readTexts_eq (l := u.inbounds) (by simp)]
    rfl

def usersChunk : Codec UsersChunk where
  fields c := messages user 1 c.users ++ uint 2 c.index ++ uint 3 (if c.last then 1 else 0)
  ofFields fs := do
    let users ← readMessages user 1 fs
    return ⟨users, readUint 2 fs, readUint 3 fs ≠ 0⟩
  ofFields_fields c h := by
    rw [readMessages_eq (l := c.users) h (by simp), readUint_eq (v := c.index) (by simp),
      readUint_eq (v := if c.last then 1 else 0) (by simp)]
    obtain ⟨users, index, last⟩ := c
    cases last with
    | false => rfl
    | true => rfl

end Proto

/-- **Protobuf is such a wire.** -/
def protoWire : Wire where
  marshal := Proto.usersChunk.marshal
  unmarshal := Proto.usersChunk.unmarshal
  marshal_default := rfl
  unmarshal_marshal _ h := Proto.usersChunk.unmarshal_marshal (lt_of_le_of_lt h (by decide))

end NodeAgent
