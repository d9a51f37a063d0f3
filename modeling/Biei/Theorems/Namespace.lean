import Biei.Lemmas.Delivery
import Biei.Theorems.Auth

/-! # The namespace that is authorized is the one that is served -/

namespace Biei.Ishikari

/-- A request that is passed on and served a key was authorized for the namespace of that key; so all spellings of a key are
authorized for one namespace. -/
theorem served_key_authorized (authorize : Option Bytes → Bool) (key : Bytes) :
    (∀ route ∈ publicRouter, ∀ path, (authorizeDelivery authorize route.1 path).Passed → servedKey route path = some key →
      authorizeDelivery authorize route.1 path = .authorized (some (firstSegment key))) ∧
      ∀ route ∈ publicRouter, ∀ route' ∈ publicRouter, ∀ path path',
        (authorizeDelivery authorize route.1 path).Passed → (authorizeDelivery authorize route'.1 path').Passed →
        servedKey route path = some key → servedKey route' path' = some key →
        authorizeDelivery authorize route.1 path = authorizeDelivery authorize route'.1 path' := by
  have hserved : ∀ route ∈ publicRouter, ∀ path, (authorizeDelivery authorize route.1 path).Passed →
    servedKey route path = some key →
      authorizeDelivery authorize route.1 path = .authorized (some (firstSegment key)) := by
    intro route hroute path hpassed hkey
    obtain ⟨lead, rest, rfl, hnamespace, hfirst⟩ := served_below hroute hkey
    unfold authorizeDelivery at hpassed ⊢
    rw [hnamespace] at hpassed ⊢
    cases hdecoded : decodedNamespace (lead ++ rest) lead with
    | error e =>
      rw [hdecoded] at hpassed
      rcases hpassed with h | ⟨ns, h⟩ <;> cases h
    | ok ns =>
      obtain ⟨decoded, hstrict, rfl⟩ := of_decodedNamespace hdecoded
      obtain ⟨hsegment, hwhole⟩ := firstSegment_percentDecode hstrict
      have hkeyed : firstSegment key = firstSegment decoded := by
        rcases hfirst with h | h
        · rw [h, hsegment]
        · rw [h, hwhole]
      rw [hdecoded] at hpassed
      simp only [Except.map] at hpassed ⊢
      by_cases hauthorize : authorize (some (firstSegment decoded)) = true
      · rw [if_pos hauthorize, hkeyed]
      · rw [if_neg hauthorize] at hpassed
        rcases hpassed with h | ⟨ns, h⟩ <;> cases h
  refine ⟨hserved, fun route hroute route' hroute' path path' hpassed hpassed' hkey hkey' => ?_⟩
  rw [hserved route hroute path hpassed hkey, hserved route' hroute' path' hpassed' hkey']

/-- A tileset whose key is spelt with an escaped slash, and one letter escaped. -/
theorem served_key_authorized_escaped :
    servedKey ([.text "tilesets", .parameter "tileset_id"], .flat) (utf8 "/tilesets/%66oo%2Fbar") = some (utf8 "foo/bar") ∧
      authorizeDelivery (fun ns => ns == some (utf8 "foo")) [.text "tilesets", .parameter "tileset_id"]
        (utf8 "/tilesets/%66oo%2Fbar") =
        .authorized (some (utf8 "foo")) := by
  have hserved : servedKey ([.text "tilesets", .parameter "tileset_id"], .flat) (utf8 "/tilesets/%66oo%2Fbar") =
      some (utf8 "foo/bar") := by decide
  refine ⟨hserved, ?_⟩
  exact (served_key_authorized (fun ns => ns == some (utf8 "foo")) (utf8 "foo/bar")).1 _ (by decide) _
    (Or.inr ⟨some (utf8 "foo"), by decide⟩) hserved

end Biei.Ishikari

/-! ## What a set of namespaces means -/

namespace Biei

open Labels

/-- For all lists that are accepted: `allows` is inclusion of what the labels stand for, the set depends on which labels are
listed alone, it stands for what was listed, and it passes the check of a shared set and a trip over the wire. For every grant of
a parsed registry, the namespace test of `authorize` passes for what the list that the registry declares stands for. -/
theorem namespaceSets_denote :
    (∀ {listed listed' labels labels' : List String}, tryNew listed = .ok labels → tryNew listed' = .ok labels' →
      (allows labels labels' = true ↔ meaning labels' ⊆ meaning labels) ∧
      ((∀ label, label ∈ listed ↔ label ∈ listed') → labels = labels') ∧
      meaning labels = meaning listed ∧
      tryFromShared labels = .ok labels ∧
      fromJson (toJson labels) = .ok labels) ∧
    ∀ {env : RegistryEnv} {registryId : String} {body : Bytes} {snapshot : RegistrySnapshot},
      RegistrySnapshot.parse env registryId body = .ok snapshot →
      ∃ wire, env.registryFromSlice body = .ok wire ∧ ∀ entry ∈ snapshot.credentials, ∃ declared ∈ wire.credentials,
        decodeSha256 declared.credentialSha256 = .ok entry.1 ∧
        ∀ name, entry.2.passes name = entry.2.covers name ∧
          (entry.2.passes name = true ↔ name ∈ meaning declared.namespaces) := by
  refine ⟨?_, ?_⟩
  · intro listed listed' labels labels' h h'
    obtain ⟨hcanonical, hagain, hshared⟩ := tryNew_ok h
    obtain ⟨-, rfl⟩ := tryNew_eq_ok_iff.mp h
    obtain ⟨-, rfl⟩ := tryNew_eq_ok_iff.mp h'
    refine ⟨hcanonical.allows_iff _, fun hsame => ?_, meaning_canonicalNamespaces listed, hshared, ?_⟩
    · have hset : OrderedSet.empty.extend listed = OrderedSet.empty.extend listed' :=
        OrderedSet.ext_mem fun label => by rw [OrderedSet.mem_extend, OrderedSet.mem_extend, hsame]
      simp only [canonicalNamespaces, hset]
    · rw [fromJson_toJson, hagain]
  · intro env registryId body snapshot hparse
    obtain ⟨wire, hwire, -⟩ := parse_ok hparse
    refine ⟨wire, hwire, fun entry hentry => ?_⟩
    obtain ⟨wire', hwire', declared, hdeclared, hgrant⟩ := exists_grantOf hparse hentry
    cases hwire.symm.trans hwire'
    have hcanonical : Canonical entry.2.namespaces := hgrant.namespaces ▸ canonical_canonicalNamespaces _
    refine ⟨declared, hdeclared, hgrant.digest, fun name => ⟨CredentialGrant.passes_eq_covers hcanonical name, ?_⟩⟩
    rw [CredentialGrant.passes_iff hcanonical, hgrant.namespaces, meaning_canonicalNamespaces]

theorem namespaceSets_denote_maps :
    (allows ["!", "maps"] ["maps"] = true ↔ meaning ["maps"] ⊆ meaning ["!", "maps"]) ∧
      ∃ wire, letterX.env.registryFromSlice letterX.body = .ok wire ∧ ∀ entry ∈ letterX.snapshot.credentials,
        ∃ declared ∈ wire.credentials, decodeSha256 declared.credentialSha256 = .ok entry.1 ∧
        ∀ name, entry.2.passes name = entry.2.covers name ∧
          (entry.2.passes name = true ↔ name ∈ meaning declared.namespaces) := by
  have hlisted : tryNew ["maps", "!", "maps"] = .ok ["!", "maps"] :=
    tryNew_eq_ok_iff.mpr ⟨by decide, by decide⟩
  have hlisted' : tryNew ["maps"] = .ok ["maps"] := tryNew_eq_ok_iff.mpr ⟨by decide, by decide⟩
  exact ⟨(namespaceSets_denote.1 hlisted hlisted').1, namespaceSets_denote.2 parse_letterX⟩

end Biei
