import Biei.Lemmas.Auth

/-! # The authorization boundary -/

namespace Biei

/-- The ingress panics on an authorized delivery only when its token is too long. -/
theorem renderAuthorization_isSome_iff {authorized : AuthorizedDelivery} {registryId credential : String}
    (htoken : parseTokenEnvelope authorized.presentedToken = .ok (registryId, credential))
    (hnamespaces : ∃ set, NamespaceSet.tryFromShared authorized.readableNamespaces = .ok set) :
    (∃ authorization, renderAuthorization authorized = some authorization) ↔
      authorized.presentedToken.utf8ByteSize ≤ maxProviderBearerTokenBytes := by
  obtain ⟨set, hset⟩ := hnamespaces
  rw [← tryNew_ok_iff htoken]
  unfold renderAuthorization
  rw [hset]
  constructor
  · rintro ⟨authorization, h⟩
    simp only at h
    split at h
    · cases h
    · rename_i bearer hbearer
      exact ⟨bearer, hbearer⟩
  · rintro ⟨bearer, hbearer⟩
    rw [hbearer]
    exact ⟨_, rfl⟩

/-- For every request that is authorized by a parsed snapshot: the ingress makes an authorization of it that its peers read as it
is, exactly when the token as a whole is not longer than a bearer token may be. The namespaces are always accepted. -/
theorem authorized_ingress_iff (env : RegistryEnv) (configured : String → Bool) (snapshotOf : String → Option RegistrySnapshot)
    (hparsed : ∀ registryId snapshot, snapshotOf registryId = some snapshot →
      ∃ body, RegistrySnapshot.parse env registryId body = .ok snapshot)
    (headers : HeaderMap) (query requiredNamespace : Option String) (action : DeliveryAction) {authorized : AuthorizedDelivery}
    (h : authorize env.toAuthEnv configured snapshotOf headers query requiredNamespace action = .ok authorized) :
    (∃ set, NamespaceSet.tryFromShared authorized.readableNamespaces = .ok set) ∧
      ((∃ authorization, renderAuthorization authorized = some authorization ∧
          RenderAuthorization.fromJson authorization.toJson = .ok authorization) ↔
        ∀ presented, deliveryToken env.toAuthEnv headers query = .ok presented →
          presented.value.utf8ByteSize ≤ maxProviderBearerTokenBytes) := by
  obtain ⟨p, snapshot, hpresent, hsnapshot, hdecide⟩ := authorize_ok h
  obtain ⟨hdelivery, henvelope, -⟩ := present_ok hpresent
  obtain ⟨grant, hgrant, hnamespaces, htoken, -⟩ := decideRequest_ok hdecide
  obtain ⟨body, hbody⟩ := hparsed p.registryId snapshot hsnapshot
  have hset : ∃ set, NamespaceSet.tryFromShared authorized.readableNamespaces = .ok set := by
    rw [hnamespaces]
    exact grantsCanonical_of_parse hbody _ hgrant
  rw [← htoken] at henvelope
  refine ⟨hset, ?_⟩
  have hiff := renderAuthorization_isSome_iff henvelope hset
  constructor
  · rintro ⟨authorization, hauthorization, -⟩ presented hpresented
    cases hdelivery.symm.trans hpresented
    rw [← htoken]
    exact hiff.mp ⟨authorization, hauthorization⟩
  · intro hshort
    obtain ⟨authorization, hauthorization⟩ := hiff.mpr (htoken ▸ hshort p.presented hdelivery)
    exact ⟨authorization, hauthorization, authorization.fromJson_toJson⟩

/-! ## A registry of one credential -/

/-- A credential of the letter `x`, so many times, with its digests. -/
structure LetterCredential where
  count : Nat
  hex : String
  digest : Digest
  partition : Digest

def LetterCredential.text (c : LetterCredential) : List Char := List.replicate c.count 'x'

/-- The registry `a` at revision 7, which lists the credential for the namespace `maps`. -/
def LetterCredential.wire (c : LetterCredential) : RegistrySnapshotWire :=
  ⟨1, "a", 7, [⟨c.hex, "tester", true, ["maps"], [.renderStatic], [], false⟩]⟩

def LetterCredential.body (c : LetterCredential) : Bytes :=
  utf8 ("\x7b\"schema_version\":1,\"registry_id\":\"a\",\"revision\":7,\"credentials\":[\x7b\"credential_sha256\":\"" ++ c.hex ++
    "\",\"principal_id\":\"tester\",\"enabled\":true,\"namespaces\":[\"maps\"],\"actions\":[\"render.static\"]," ++
    "\"allow_missing_origin\":false\x7d]\x7d")

/-- The digests of the credential: its own, and that of its partition. -/
def LetterCredential.env (c : LetterCredential) : RegistryEnv where
  urlParse := fun _ => none
  formUrlencodedParse := fun _ => []
  sha256 := fun bytes => if bytes.take digestDomain.length = digestDomain then c.digest else c.partition
  registryFromSlice := fun body => if body = c.body then .ok c.wire else .error "parse auth registry JSON"

def LetterCredential.grant (c : LetterCredential) : CredentialGrant :=
    ⟨c.digest, "tester", true, ["maps"], [.renderStatic], [], false⟩

def LetterCredential.snapshot (c : LetterCredential) : RegistrySnapshot := ⟨7, [(c.digest, c.grant)]⟩

/-- A request with the credential as its bearer token. -/
def LetterCredential.headers (c : LetterCredential) : HeaderMap :=
  ⟨[("authorization", [66, 101, 97, 114, 101, 114, 32, 97, 46] ++ List.replicate c.count 120)]⟩

def LetterCredential.token (c : LetterCredential) : String := String.ofList ('a' :: '.' :: c.text)

theorem utf8ByteSize_replicate (n : Nat) : (String.ofList (List.replicate n 'x')).utf8ByteSize = n := by
  induction n with
  | zero => rfl
  | succ n ih =>
    rw [List.replicate_succ, String.ofList_cons, String.utf8ByteSize_append, ih]
    have hone : (String.singleton 'x').utf8ByteSize = 1 := by decide
    omega

namespace LetterCredential

variable (c : LetterCredential)

theorem utf8ByteSize_token : c.token.utf8ByteSize = c.count + 2 := by
  have ha : (String.singleton 'a').utf8ByteSize = 1 := by decide
  have hdot : (String.singleton '.').utf8ByteSize = 1 := by decide
  rw [token, String.ofList_cons, String.ofList_cons, String.utf8ByteSize_append, String.utf8ByteSize_append, text,
    utf8ByteSize_replicate]
  omega

theorem bearerToken_headers (hpos : 0 < c.count) : bearerToken c.headers = .ok (some c.token) := by
  have hvisible : ([66, 101, 97, 114, 101, 114, 32, 97, 46] ++ List.replicate c.count (120 : UInt8)).all
      (fun b => b == 9 || (32 ≤ b && b < 127)) = true := by
    rw [List.all_append, List.all_replicate, if_neg (Nat.ne_of_gt hpos)]
    decide
  have hvalue : headerToStr ([66, 101, 97, 114, 101, 114, 32, 97, 46] ++ List.replicate c.count 120) =
      some ("Bearer".toList ++ ' ' :: ('a' :: '.' :: c.text)) := by
    rw [headerToStr, if_pos hvisible, List.map_append, List.map_replicate]
    rfl
  have hspaces : ('a' :: '.' :: c.text).any isWhitespace = false := by
    rw [List.any_cons, List.any_cons, text, List.any_replicate, if_neg (Nat.ne_of_gt hpos)]
    decide
  have hscheme : "Bearer".toList.map Char.toLower = "bearer".toList := by decide
  have hget : c.headers.getAll "authorization" = [[66, 101, 97, 114, 101, 114, 32, 97, 46] ++ List.replicate c.count 120] := rfl
  simp only [bearerToken, hget, hvalue, splitOnce_append (show ' ' ∉ "Bearer".toList by decide), hscheme, hspaces,
    List.isEmpty_cons, ne_eq, not_true_eq_false, Bool.false_eq_true, or_self, if_false, token]

theorem parseTokenEnvelope_token (hpos : 0 < c.count) (hle : c.count ≤ maxCredentialBytes) :
    parseTokenEnvelope c.token = .ok ("a", String.ofList c.text) := by
  have hsplit : splitOnce '.' ('a' :: '.' :: c.text) = some (['a'], c.text) :=
    splitOnce_append (show '.' ∉ ['a'] by decide) c.text
  have hregistry : validateRegistryId (String.ofList ['a']) = .ok () := by decide
  have hempty : c.text.isEmpty = false := by
    rw [text, List.isEmpty_replicate]
    exact decide_eq_false (Nat.ne_of_gt hpos)
  have hbytes : c.text.all isTokenByte = true := by
    rw [text, List.all_replicate, if_neg (Nat.ne_of_gt hpos)]
    decide
  have hsize : ¬(String.ofList c.text).utf8ByteSize > maxCredentialBytes := by
    rw [text, utf8ByteSize_replicate]
    exact Nat.not_lt_of_le hle
  simp only [parseTokenEnvelope, token, String.toList_ofList, hsplit, hregistry, hempty, hbytes, hsize, Bool.false_eq_true,
    Bool.not_true, or_self, if_false]

theorem authorize_token (hpos : 0 < c.count) (hle : c.count ≤ maxCredentialBytes) :
    authorize c.env.toAuthEnv (fun id => id == "a") (fun id => if id = "a" then some c.snapshot else none) c.headers none
      (some "maps") .renderStatic = .ok ⟨"tester", "a", ["maps"], c.partition, c.token, false⟩ := by
  have hdelivery : deliveryToken c.env.toAuthEnv c.headers none = .ok ⟨c.token, false⟩ := by
    simp only [deliveryToken, c.bearerToken_headers hpos]
    rfl
  have hpresent : present c.env.toAuthEnv (fun id => id == "a") c.headers none =
      .ok ⟨⟨c.token, false⟩, "a", String.ofList c.text⟩ := by
    refine Except.bind_eq_ok_iff.mpr ⟨_, hdelivery, Except.bind_eq_ok_iff.mpr ⟨_, c.parseTokenEnvelope_token hpos hle, rfl⟩⟩
  have hdigest : credentialDigest c.env.toAuthEnv "a" (String.ofList c.text) = c.digest := by
    have htake : (digestDomain ++ digestInput "a" (String.ofList c.text)).take digestDomain.length = digestDomain :=
      List.take_left
    simp only [credentialDigest, env, htake, if_true]
  have hpartition : credentialCachePartition c.env.toAuthEnv "a" (String.ofList c.text) 7 = c.partition := by
    have htake : (cachePartitionDomain ++ beBytes 8 (7 : UInt64).toNat ++ digestInput "a" (String.ofList c.text)).take
        digestDomain.length ≠ digestDomain := by
      rw [List.append_assoc, List.take_append_of_le_length (by decide)]
      decide
    simp only [credentialCachePartition, env, htake, if_false]
  refine Except.bind_eq_ok_iff.mpr ⟨_, hpresent, ?_⟩
  simp only [if_true, decideRequest, hdigest, snapshot, List.lookup_cons_self, grant, Option.filter, beq_self_eq_true,
    Bool.and_self,
    hpartition]
  rfl

end LetterCredential

def letterX : LetterCredential where
  count := 1
  hex := "0f15630aba4ef58c99f91bf9dc3bb88e1606c207eb8352ad8476fd703b2c3d21"
  digest := #v[15, 21, 99, 10, 186, 78, 245, 140, 153, 249, 27, 249, 220, 59, 184, 142,
    22, 6, 194, 7, 235, 131, 82, 173, 132, 118, 253, 112, 59, 44, 61, 33]
  partition := #v[29, 41, 224, 1, 227, 132, 202, 241, 121, 159, 232, 5, 117, 191, 203, 88,
    95, 121, 144, 181, 52, 84, 103, 254, 159, 100, 37, 198, 113, 133, 142, 189]

def longLetterX : LetterCredential where
  count := 4096
  hex := "110bb93aa132c1ae997c1ab6d16783b4681d4e4617290e614a122c585fc7842b"
  digest := #v[17, 11, 185, 58, 161, 50, 193, 174, 153, 124, 26, 182, 209, 103, 131, 180,
    104, 29, 78, 70, 23, 41, 14, 97, 74, 18, 44, 88, 95, 199, 132, 43]
  partition := #v[38, 114, 250, 115, 179, 143, 159, 33, 40, 18, 94, 127, 63, 162, 214, 187,
    133, 237, 70, 47, 225, 163, 54, 57, 117, 242, 183, 71, 194, 231, 98, 245]

theorem parse_letterX : RegistrySnapshot.parse letterX.env "a" letterX.body = .ok letterX.snapshot := by
  decide +kernel

theorem parse_longLetterX : RegistrySnapshot.parse longLetterX.env "a" longLetterX.body = .ok longLetterX.snapshot := by
  decide +kernel

/-- The verifier of a registry with the credential gives what it has parsed. -/
theorem LetterCredential.parsed (c : LetterCredential) (hparse : RegistrySnapshot.parse c.env "a" c.body = .ok c.snapshot)
    (registryId : String) (snapshot : RegistrySnapshot)
      (h : (if registryId = "a" then some c.snapshot else none) = some snapshot) :
    ∃ body, RegistrySnapshot.parse c.env registryId body = .ok snapshot := by
  split at h
  · rename_i hid
    rw [hid, ← Option.some.inj h]
    exact ⟨c.body, hparse⟩
  · cases h

theorem authorized_ingress_iff_letterX :
    ∃ authorization, renderAuthorization ⟨"tester", "a", ["maps"], letterX.partition, letterX.token, false⟩ = some authorization ∧
      RenderAuthorization.fromJson authorization.toJson = .ok authorization := by
  have hdelivery : deliveryToken letterX.env.toAuthEnv letterX.headers none = .ok ⟨letterX.token, false⟩ := by
    simp only [deliveryToken, letterX.bearerToken_headers (by decide)]
    rfl
  refine (authorized_ingress_iff letterX.env (fun id => id == "a") (fun id => if id = "a" then some letterX.snapshot else none)
    (letterX.parsed parse_letterX) letterX.headers none (some "maps") .renderStatic
    (letterX.authorize_token (by decide) (by decide))).2.mpr fun presented hpresented => ?_
  cases hdelivery.symm.trans hpresented
  decide

/-- A credential of the greatest length is authorized, and the ingress panics: with the registry before it, the token is too
long. -/
theorem longLetterX_panics :
    RegistrySnapshot.parse longLetterX.env "a" longLetterX.body = .ok longLetterX.snapshot ∧
      ∃ authorized, authorize longLetterX.env.toAuthEnv (fun id => id == "a")
          (fun id => if id = "a" then some longLetterX.snapshot else none) longLetterX.headers none (some "maps") .renderStatic =
        .ok authorized ∧
      renderAuthorization authorized = none := by
  refine ⟨parse_longLetterX, _, longLetterX.authorize_token (by decide) (by decide), ?_⟩
  have hnamespaces : ∃ set, NamespaceSet.tryFromShared ["maps"] = .ok set := by
    have hcanonical : canonicalNamespaces ["maps"] = ["maps"] := by decide
    rw [← hcanonical]
    exact tryFromShared_canonicalNamespaces (by decide)
  have hiff : (∃ authorization,
      renderAuthorization ⟨"tester", "a", ["maps"], longLetterX.partition, longLetterX.token, false⟩ = some authorization) ↔
        longLetterX.token.utf8ByteSize ≤ maxProviderBearerTokenBytes :=
    renderAuthorization_isSome_iff (longLetterX.parseTokenEnvelope_token (by decide) (by decide)) hnamespaces
  rw [Option.eq_none_iff_forall_ne_some]
  intro authorization hauthorization
  have hlen := hiff.mp ⟨authorization, hauthorization⟩
  rw [longLetterX.utf8ByteSize_token] at hlen
  exact absurd hlen (by decide)

/-! ## Who is authorized -/

/-- What `authorize` makes of a token, when it is accepted: the registry is configured, and its snapshot decides. -/
theorem authorize_eq_ok_iff {env : AuthEnv} {configured : String → Bool} {snapshotOf : String → Option RegistrySnapshot}
    {headers : HeaderMap} {query requiredNamespace : Option String} {action : DeliveryAction} {authorized : AuthorizedDelivery} :
    authorize env configured snapshotOf headers query requiredNamespace action = .ok authorized ↔
      ∃ p snapshot, deliveryToken env headers query = .ok p.presented ∧
        parseTokenEnvelope p.presented.value = .ok (p.registryId, p.credential) ∧ configured p.registryId = true ∧
        snapshotOf p.registryId = some snapshot ∧ decideRequest env snapshot headers p requiredNamespace action = .ok
          authorized := by
  constructor
  · intro h
    obtain ⟨p, snapshot, hpresent, hsnapshot, hdecide⟩ := authorize_ok h
    obtain ⟨htoken, henvelope, hconfigured⟩ := present_ok hpresent
    exact ⟨p, snapshot, htoken, henvelope, hconfigured, hsnapshot, hdecide⟩
  · rintro ⟨p, snapshot, htoken, henvelope, hconfigured, hsnapshot, hdecide⟩
    have hpresent : present env configured headers query = .ok p := by
      refine Except.bind_eq_ok_iff.mpr ⟨_, htoken, Except.bind_eq_ok_iff.mpr ⟨_, henvelope, ?_⟩⟩
      simp only [hconfigured, if_true]
    refine Except.bind_eq_ok_iff.mpr ⟨p, hpresent, ?_⟩
    simp only [hsnapshot]
    exact hdecide

/-- For every request, and registries whose snapshots were parsed: `authorize` accepts exactly what the rule authorizes. What is
given twice is never accepted where it is looked at: the header and the parameter of the credential always, and the origin, or
else the referrer, where the grant declares origins. -/
theorem authorize_ok_iff (env : RegistryEnv) (catalog : RegistryCatalog) (snapshotOf : String → Option RegistrySnapshot)
    (hparsed : ∀ registryId snapshot, snapshotOf registryId = some snapshot →
      ∃ body, RegistrySnapshot.parse env registryId body = .ok snapshot)
    (headers : HeaderMap) (query requiredNamespace : Option String) (action : DeliveryAction) :
    ((∃ authorized, authorize env.toAuthEnv catalog.contains snapshotOf headers query requiredNamespace action = .ok authorized) ↔
      ∃ token registryId credential snapshot grant, IsAuthorized env.toAuthEnv catalog snapshotOf headers query requiredNamespace
        action
        token registryId credential snapshot grant) ∧
    ((∃ authorized, authorize env.toAuthEnv catalog.contains snapshotOf headers query requiredNamespace action = .ok authorized) →
      (headers.getAll "authorization").length ≤ 1 ∧ (accessTokens env.toAuthEnv query).length ≤ 1) ∧
    ∀ grant, OriginPermitted env.toAuthEnv headers grant → grant.allowedOrigins ≠ [] →
      (headers.getAll "origin").length ≤ 1 ∧ (headers.getAll "origin" = [] → (headers.getAll "referer").length ≤ 1) := by
  have hiff : (∃ authorized, authorize env.toAuthEnv catalog.contains snapshotOf headers query requiredNamespace action =
        .ok authorized) ↔
      ∃ token registryId credential snapshot grant, IsAuthorized env.toAuthEnv catalog snapshotOf headers query requiredNamespace
        action
        token registryId credential snapshot grant := by
    constructor
    · rintro ⟨authorized, h⟩
      obtain ⟨p, snapshot, htoken, henvelope, hconfigured, hsnapshot, hdecide⟩ := authorize_eq_ok_iff.mp h
      obtain ⟨body, hbody⟩ := hparsed _ _ hsnapshot
      obtain ⟨grant, hlisted, hpermits⟩ := (decideRequest_ok_iff hbody).mp ⟨authorized, hdecide⟩
      obtain ⟨hshape, -, hcredential⟩ := parseTokenEnvelope_ok_iff.mp henvelope
      refine ⟨p.presented.value, p.registryId, p.credential, snapshot, grant, deliveryToken_ok_iff.mp ⟨_, htoken⟩, hshape, ?_,
        hcredential,
        hsnapshot, hlisted, hpermits⟩
      simpa [RegistryCatalog.contains] using hconfigured
    · rintro ⟨token, registryId, credential, snapshot, grant, h⟩
      obtain ⟨fromQuery, htoken⟩ := deliveryToken_ok_iff.mpr h.presented
      obtain ⟨body, hbody⟩ := hparsed _ _ h.available
      have henvelope : parseTokenEnvelope token = .ok (registryId, credential) :=
        parseTokenEnvelope_ok_iff.mpr ⟨h.envelope, catalog.valid registryId h.configured, h.wellFormed⟩
      obtain ⟨authorized, hdecide⟩ := (decideRequest_ok_iff (p := ⟨⟨token, fromQuery⟩, registryId, credential⟩) hbody).mpr
        ⟨grant, h.listed, h.permitted⟩
      refine ⟨authorized, authorize_eq_ok_iff.mpr ⟨_, snapshot, htoken, henvelope, ?_, h.available, hdecide⟩⟩
      simpa [RegistryCatalog.contains] using h.configured
  refine ⟨hiff, ?_, ?_⟩
  · intro haccepted
    obtain ⟨token, registryId, credential, snapshot, grant, h⟩ := hiff.mp haccepted
    cases h.presented with
    | header value honly hbearer hquery => simp [honly, hquery]
    | parameter hheader honly => simp [hheader, honly]
  · intro grant hpermitted hdeclared
    cases hpermitted with
    | undeclared hnone => exact absurd hnone hdeclared
    | origin origin hheader hmem =>
      obtain ⟨value, text, honly, -, -⟩ := hheader.normalized
      simp [honly]
    | referer origin habsent hheader hmem =>
      obtain ⟨value, text, honly, -, -⟩ := hheader.normalized
      simp [habsent, honly]
    | missing habsent habsent' hallowed => simp [habsent, habsent']

/-- The registry `a` alone. -/
def catalogA : RegistryCatalog where
  ids := ["a"]
  valid := by
    intro id hid
    rw [List.mem_singleton.mp hid]
    decide

theorem authorize_ok_iff_letterX : ∃ token registryId credential snapshot grant,
    IsAuthorized letterX.env.toAuthEnv catalogA (fun id => if id = "a" then some letterX.snapshot else none) letterX.headers none
      (some "maps") .renderStatic token registryId credential snapshot grant := by
  have hcontains : catalogA.contains = fun id => id == "a" := by
    funext id
    rw [Bool.eq_iff_iff]
    simp [RegistryCatalog.contains, catalogA]
  have haccepted : ∃ authorized, authorize letterX.env.toAuthEnv catalogA.contains
      (fun id => if id = "a" then some letterX.snapshot else none) letterX.headers none (some "maps") .renderStatic =
        .ok authorized := by
    rw [hcontains]
    exact ⟨_, letterX.authorize_token (by decide) (by decide)⟩
  exact (authorize_ok_iff letterX.env catalogA _ (letterX.parsed parse_letterX) letterX.headers none (some "maps")
    .renderStatic).1.mp haccepted

end Biei
