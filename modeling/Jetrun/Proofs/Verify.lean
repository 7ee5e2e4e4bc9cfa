import Jetrun.Verify

/-!
# What the verifier accepts

A delivery is accepted if it carries the proof its provider sends with its own deliveries, and only
then. What stands in the headers of the other providers makes no difference.
-/

namespace Jetrun

section Text

theorem stripPrefix_eq_some {pre s t : String} :
    stripPrefix pre s = some t ↔ s.toList = pre.toList ++ t.toList := by
  unfold stripPrefix
  constructor
  · intro h
    split_ifs at h with hpre
    obtain ⟨rest, hrest⟩ := hpre
    rw [← Option.some.inj h, ← hrest, List.drop_left, String.toList_ofList]
  · intro h
    rw [if_pos ⟨t.toList, h.symm⟩, h, List.drop_left, String.ofList_toList]

theorem stripPrefix_append (pre t : String) : stripPrefix pre (pre ++ t) = some t :=
  stripPrefix_eq_some.2 (String.toList_append ..)

end Text

variable {hmac : Hmac} {provider : Provider} {headers : Headers} {body secret : List UInt8}
  {verified : Verified}

section Signatures

theorem verifyHmacSha256_ok_iff {header : String} :
    verifyHmacSha256 hmac header body secret = .ok verified ↔
      Signed hmac header body secret ∧ verified = ⟨true⟩ := by
  have hmac64 : 2 * (hmac.mac secret body).length = 64 := by rw [hmac.length_mac]
  unfold verifyHmacSha256
  constructor
  · intro h
    split at h
    · cases h
    rename_i hexPart hstrip
    split_ifs at h with hsize
    split at h
    · cases h
    rename_i expected hdecode
    split_ifs at h with hmatch
    rw [← hmatch] at hdecode
    have hspells := Hex.decode_iff.1 hdecode
    refine ⟨⟨hexPart.toList, stripPrefix_eq_some.1 hstrip, ?_, hspells⟩, (Except.ok.inj h).symm⟩
    rw [hspells.length, hmac64]
  · rintro ⟨⟨digits, hheader, hlen, hspells⟩, rfl⟩
    have hstrip : stripPrefix "sha256=" header = some (String.ofList digits) :=
      stripPrefix_eq_some.2 (hheader.trans (congrArg _ String.toList_ofList.symm))
    have hsize : (String.ofList digits).utf8ByteSize = 64 := hspells.utf8ByteSize.trans hmac64
    simp only [hstrip, hsize, String.toList_ofList, Hex.decode_iff.2 hspells]
    rfl

theorem signed_sign (hmac : Hmac) (body secret : List UInt8) :
    Signed hmac (signHmacSha256 hmac body secret) body secret := by
  refine ⟨Hex.encode (hmac.mac secret body), ?_, ?_, Hex.spells_encode _⟩
  · exact (String.toList_append ..).trans (congrArg _ String.toList_ofList)
  · rw [Hex.length_encode, hmac.length_mac]

end Signatures

section Accepted

theorem verify_secret_iff {secret : Option (List UInt8)} :
    verify hmac provider headers body secret = .ok verified ↔ ∃ key, secret = some key ∧ key ≠ [] ∧
      verify hmac provider headers body (some key) = .ok verified := by
  constructor
  · intro h
    rcases secret with _ | key
    · cases h
    · refine ⟨key, rfl, ?_, h⟩
      rintro rfl
      cases h
  · rintro ⟨key, rfl, -, h⟩
    exact h

theorem verify_key_iff (hkey : secret ≠ []) :
    verify hmac provider headers body (some secret) = .ok verified ↔
      Genuine hmac headers body secret provider ∧ verified = ⟨provider.signsBody⟩ := by
  obtain ⟨b, bs, rfl⟩ := List.exists_cons_of_ne_nil hkey
  unfold verify
  cases provider with
  | gitHub =>
    rcases hget : headers.get githubSig256 with _ | sig
    · simp only [Genuine, hget]
      split_ifs <;> simp
    · simp [Genuine, hget, Provider.signsBody, verifyHmacSha256_ok_iff]
  | gitLab =>
    rcases hget : headers.get gitlabToken with _ | token
    · simp [Genuine, hget]
    · by_cases htoken : Utf8.encode token = b :: bs
      · simp [Genuine, hget, htoken, Provider.signsBody, eq_comm]
      · simp [Genuine, hget, htoken]
  | bitbucket =>
    rcases hget : headers.get bitbucketSig with _ | sig
    · simp [Genuine, hget]
    · simp [Genuine, hget, Provider.signsBody, verifyHmacSha256_ok_iff]

/-- A delivery is accepted exactly if a secret is set and the delivery carries its provider's proof.
So a signature made with the secret is always accepted, and GitHub's old header alone never. -/
theorem verify_ok_iff (hmac : Hmac) (headers : Headers) (body : List UInt8) :
    (∀ provider secret verified, verify hmac provider headers body secret = .ok verified ↔
      ∃ key, secret = some key ∧ key ≠ [] ∧ Genuine hmac headers body key provider ∧
        verified = ⟨provider.signsBody⟩) ∧
    (∀ key : List UInt8, key ≠ [] → ∀ provider name,
      (provider, name) ∈ [(Provider.gitHub, githubSig256), (Provider.bitbucket, bitbucketSig)] →
        headers.get name = some (signHmacSha256 hmac body key) →
          verify hmac provider headers body (some key) = .ok ⟨true⟩) ∧
    (headers.get githubSig256 = none → ∀ secret verified,
      verify hmac .gitHub headers body secret ≠ .ok verified) := by
  refine ⟨fun provider secret verified => ?_, fun key hkey provider name hmem hget => ?_,
    fun hnone secret verified h => ?_⟩
  · rw [verify_secret_iff]
    refine exists_congr fun key => and_congr_right fun _ => and_congr_right fun hkey => ?_
    exact verify_key_iff hkey
  · have hsigned := signed_sign hmac body key
    rcases List.mem_cons.1 hmem with heq | hmem
    · cases heq
      exact (verify_key_iff hkey).2 ⟨⟨_, hget, hsigned⟩, rfl⟩
    · cases List.mem_singleton.1 hmem
      exact (verify_key_iff hkey).2 ⟨⟨_, hget, hsigned⟩, rfl⟩
  · obtain ⟨key, -, hkey, hok⟩ := verify_secret_iff.1 h
    obtain ⟨⟨header, hget, -⟩, -⟩ := (verify_key_iff hkey).1 hok
    cases hnone.symm.trans hget

/-- A MAC to try things on: the key, and after it the body. -/
def sampleHmac : Hmac where
  mac secret body := (secret ++ body ++ List.replicate 32 0).take 32
  length_mac secret body := by
    simp only [List.length_take, List.length_append, List.length_replicate]
    omega

/-- A signature is accepted under the new name of the header, and refused under the old one. -/
theorem signed_accepted :
    verify sampleHmac .gitHub ⟨[(githubSig256, signHmacSha256 sampleHmac [97] [115])]⟩ [97]
      (some [115]) = .ok ⟨true⟩ ∧
    verify sampleHmac .gitHub ⟨[(githubSigLegacy, signHmacSha256 sampleHmac [97] [115])]⟩ [97]
      (some [115]) ≠ .ok ⟨true⟩ :=
  ⟨(verify_ok_iff sampleHmac _ _).2.1 [115] (by decide) .gitHub githubSig256 (by simp) rfl,
    (verify_ok_iff sampleHmac _ _).2.2 (by decide) _ _⟩

end Accepted

end Jetrun
