import NodeAgent.Xray.Helpers.Exact
/-!
# Shadowsocks 2022 keys from passwords

A user's account is keyed when it is handed to Xray and keyed again when
it is recorded in the configuration, so the two agree only because the
derivation returns keys of the method, and keeps what is one. Both hold for
any bytes a password may have: what passes for a key already (line ends in
it included) is kept, and anything else becomes the encoding of a hash,
which decodes to the hash.
-/

namespace NodeAgent

open GoStrings

namespace Raw

variable {method : String}

/-- The key bytes are hashed to. -/
def hashedKey (password : List UInt8) (method : String) : List UInt8 :=
  if contains method "aes-128-gcm" then (Sha256.sum256 password).take 16
  else (Sha256.sum256 password).take 32

theorem ensureBase64Password_eq (password : List UInt8) (method : String) :
    ensureBase64Password password method =
      if (Base64.decodeBytes password).any (keyFits method) then password
      else Base64.encodeBytes (hashedKey password method) :=
  rfl

/-- **On strings it is the derivation the accounts are keyed with.** -/
theorem ensureBase64Password_toUTF8 (password method : String) :
    ensureBase64Password password.toUTF8.toList method =
      (NodeAgent.ensureBase64Password password method).toUTF8.toList := by
  rw [ensureBase64Password_eq, NodeAgent.ensureBase64Password_eq, Base64.decodeBytes_toUTF8]
  split_ifs with hfits
  · rfl
  · rw [Base64.toUTF8_encodeToString]
    rfl

theorem any_keyFits_ensureBase64Password (h : method ∈ methods2022) (password : List UInt8) :
    (Base64.decodeBytes (ensureBase64Password password method)).any (keyFits method) = true := by
  rw [ensureBase64Password_eq]
  split_ifs with hfits
  · exact hfits
  · rw [Base64.decodeBytes_encodeBytes, Option.any_some, keyFits_iff h]
    exact length_cut h (Sha256.length_sum256 password)

/-- **Every password becomes a key of its method, and a key stays as it
is.** -/
theorem derived_key (h : method ∈ methods2022) (password : List UInt8) :
    (∃ key, Base64.decodeBytes (ensureBase64Password password method) = some key ∧
        key.length = if method = "2022-blake3-aes-128-gcm" then 16 else 32) ∧
      ensureBase64Password (ensureBase64Password password method) method =
        ensureBase64Password password method := by
  have hkey := any_keyFits_ensureBase64Password h password
  constructor
  · cases hdecoded : Base64.decodeBytes (ensureBase64Password password method) with
    | none =>
      rw [hdecoded] at hkey
      cases hkey
    | some key =>
      rw [hdecoded, Option.any_some] at hkey
      exact ⟨key, rfl, (keyFits_iff h).1 hkey⟩
  · rw [ensureBase64Password_eq, if_pos hkey]

/-- A key with a line end in it is kept as it is, and bytes that are no
text become a key too. -/
theorem derived_key_line_end :
    ensureBase64Password "AAAAAAAAAAA\nAAAAAAAAAAA==".toUTF8.toList "2022-blake3-aes-128-gcm" =
        "AAAAAAAAAAA\nAAAAAAAAAAA==".toUTF8.toList ∧
      ∃ key, Base64.decodeBytes (ensureBase64Password [0xFF, 0x0A] "2022-blake3-aes-256-gcm") =
          some key ∧ key.length = 32 := by
  have hknown : "2022-blake3-aes-256-gcm" ∈ methods2022 := by decide
  exact ⟨by decide +kernel, (derived_key hknown [0xFF, 0x0A]).1⟩

end Raw

end NodeAgent
