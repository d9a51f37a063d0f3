import Biei.Auth.Rule
import Biei.Lemmas.Text
import Biei.Lib.Fallible

/-! # What a registry and a token are checked for -/

namespace Biei

/-! ## Tokens -/

theorem isTokenByte_of_isRegistryIdChar {c : Char} (h : isRegistryIdChar c = true) : isTokenByte c = true := by
  unfold isRegistryIdChar at h
  simp only [Bool.or_eq_true, beq_iff_eq] at h
  rcases h with ((h | h) | rfl) | rfl
  · have hge : 97 ≤ c.toNat ∧ c.toNat ≤ 122 := by
      simpa [Char.isLower, UInt32.le_iff_toNat_le, ← Char.toNat_val] using h
    simp only [isTokenByte, Bool.not_eq_true', Bool.or_eq_false_iff, decide_eq_false_iff_not, beq_eq_false_iff_ne]
    omega
  · have hge : 48 ≤ c.toNat ∧ c.toNat ≤ 57 := by
      simpa [Char.isDigit, UInt32.le_iff_toNat_le, ← Char.toNat_val] using h
    simp only [isTokenByte, Bool.not_eq_true', Bool.or_eq_false_iff, decide_eq_false_iff_not, beq_eq_false_iff_ne]
    omega
  · decide
  · decide

variable {token registryId credential : String}

/-- The bytes of an accepted token, those of the registry and of the separator too, are those of a bearer token. -/
theorem tokenBytes_of_parseTokenEnvelope (h : parseTokenEnvelope token = .ok (registryId, credential)) :
    token.isEmpty = false ∧ token.toList.all isTokenByte = true := by
  unfold parseTokenEnvelope at h
  split at h
  · cases h
  · rename_i before after hsplit
    obtain ⟨htext, -⟩ := splitOnce_eq_some hsplit
    split at h
    · cases h
    · rename_i hregistry
      split at h
      · cases h
      · rename_i hcredential
        have hafter : after.all isTokenByte = true := by
          simpa using fun hno => hcredential (Or.inr (Or.inr hno))
        have hbefore : before.all isRegistryIdChar = true := by
          unfold validateRegistryId at hregistry
          split at hregistry
          · cases hregistry
          · split at hregistry
            · cases hregistry
            · rename_i hchars
              simpa using hchars
        refine ⟨?_, ?_⟩
        · rw [String.isEmpty_eq_false_iff]
          rintro rfl
          simp at htext
        · rw [htext, List.all_append, List.all_cons, hafter, Bool.and_true]
          refine Bool.and_eq_true_iff.mpr ⟨List.all_eq_true.mpr fun c hc => ?_, by decide⟩
          exact isTokenByte_of_isRegistryIdChar (List.all_eq_true.mp hbefore c hc)

/-- What is in an accepted token is bounded. -/
theorem size_of_parseTokenEnvelope (h : parseTokenEnvelope token = .ok (registryId, credential)) :
    registryId.utf8ByteSize ≤ maxRegistryIdBytes ∧ credential.utf8ByteSize ≤ maxCredentialBytes := by
  unfold parseTokenEnvelope at h
  split at h
  · cases h
  · split at h
    · cases h
    · rename_i hregistry
      split at h
      · cases h
      · rename_i hcredential
        cases h
        refine ⟨?_, Nat.not_lt.mp fun hlt => hcredential (Or.inr (Or.inl hlt))⟩
        unfold validateRegistryId at hregistry
        split at hregistry
        · cases hregistry
        · rename_i hsize
          exact Nat.not_lt.mp fun hlt => hsize (Or.inr hlt)

/-! ## Digests -/

/-- A registry and a credential are told from what is digested for them. -/
theorem digestInput_inj {registryId registryId' credential credential' : String} (hid : registryId.utf8ByteSize < 256 ^ 8)
    (hid' : registryId'.utf8ByteSize < 256 ^ 8) (hcred : credential.utf8ByteSize < 256 ^ 8)
    (hcred' : credential'.utf8ByteSize < 256 ^ 8) (h : digestInput registryId credential = digestInput registryId' credential') :
    registryId = registryId' ∧ credential = credential' := by
  simp only [digestInput, ← length_utf8, List.append_assoc] at h hid hid' hcred hcred'
  obtain ⟨hregistry, hrest⟩ := append_inj_of_beBytes_length hid hid' h
  obtain ⟨hcredential, -⟩ := append_inj_of_beBytes_length hcred hcred' (by rw [List.append_nil, List.append_nil]; exact hrest)
  exact ⟨utf8_injective hregistry, utf8_injective hcredential⟩

/-- What is digested for a cache partition. -/
def partitionInput (registryId credential : String) (registryRevision : UInt64) : Bytes :=
  cachePartitionDomain ++ beBytes 8 registryRevision.toNat ++ digestInput registryId credential

/-- The registry, the credential and the revision are told from what is digested for them. -/
theorem partitionInput_inj {registryId registryId' credential credential' : String} {revision revision' : UInt64}
    (hid : registryId.utf8ByteSize ≤ maxRegistryIdBytes) (hid' : registryId'.utf8ByteSize ≤ maxRegistryIdBytes)
    (hcred : credential.utf8ByteSize ≤ maxCredentialBytes) (hcred' : credential'.utf8ByteSize ≤ maxCredentialBytes)
    (h : partitionInput registryId credential revision = partitionInput registryId' credential' revision') :
    registryId = registryId' ∧ credential = credential' ∧ revision = revision' := by
  have hsmall : maxRegistryIdBytes < 256 ^ 8 ∧ maxCredentialBytes < 256 ^ 8 := by decide
  simp only [partitionInput, List.append_assoc] at h
  obtain ⟨hrevision, hinput⟩ := List.append_inj (List.append_cancel_left h) (by rw [length_beBytes, length_beBytes])
  obtain ⟨hregistry, hcredential⟩ := digestInput_inj (Nat.lt_of_le_of_lt hid hsmall.1) (Nat.lt_of_le_of_lt hid' hsmall.1)
    (Nat.lt_of_le_of_lt hcred hsmall.2) (Nat.lt_of_le_of_lt hcred' hsmall.2) hinput
  exact ⟨hregistry, hcredential, UInt64.toNat_inj.mp (beBytes_inj revision.toNat_lt revision'.toNat_lt hrevision)⟩

/-- A token that was accepted is a bearer token exactly when it is not too long as a whole. -/
theorem tryNew_ok_iff (h : parseTokenEnvelope token = .ok (registryId, credential)) :
    (∃ bearer, ProviderBearerToken.tryNew token = .ok bearer) ↔ token.utf8ByteSize ≤ maxProviderBearerTokenBytes := by
  obtain ⟨hne, hbytes⟩ := tokenBytes_of_parseTokenEnvelope h
  unfold ProviderBearerToken.tryNew
  split
  · rename_i hvalid
    exact ⟨fun _ => hvalid.2.1, fun _ => ⟨_, rfl⟩⟩
  · rename_i hvalid
    constructor
    · rintro ⟨bearer, hbearer⟩
      cases hbearer
    · exact fun hlen => absurd ⟨hne, hlen, hbytes⟩ hvalid

theorem tryNew_value (token : ProviderBearerToken) : ProviderBearerToken.tryNew token.value = .ok token := dif_pos token.valid

/-! ## Namespaces -/

theorem validateBoundedLabel_ok {name value : String} {maxBytes : Nat} (h : validateBoundedLabel name value maxBytes = .ok ()) :
    value.isEmpty = false ∧ value.utf8ByteSize ≤ maxBytes ∧ value.toList.any isControl = false := by
  unfold validateBoundedLabel at h
  split at h
  · cases h
  · rename_i hlabel
    simp only [not_or, Nat.not_lt, Bool.not_eq_true] at hlabel
    exact hlabel

/-- Namespaces that were checked are namespaces of a set. -/
theorem validateNamespaces_ok {namespaces : List String} (h : validateNamespaces namespaces = .ok ()) :
    namespaces ≠ [] ∧ namespaces.length ≤ maxAuthorizationNamespaces ∧ ∀ s ∈ namespaces, isNamespace s = true := by
  unfold validateNamespaces at h
  split at h
  · cases h
  · rename_i hlen
    simp only [not_or, List.isEmpty_iff, Nat.not_lt] at hlen
    refine ⟨hlen.1, hlen.2, ?_⟩
    clear hlen
    induction namespaces with
    | nil => exact fun s hs => absurd hs List.not_mem_nil
    | cons s namespaces ih =>
      rw [List.forM_eq_forM, List.forM_cons] at h
      obtain ⟨⟨⟩, hs, hrest⟩ := Except.bind_eq_ok_iff.mp h
      intro s' hs'
      rcases List.mem_cons.mp hs' with rfl | hs'
      · -- the wildcard is not checked, and passes
        split at hs
        · obtain ⟨hne, hsize, hcontrol⟩ := validateBoundedLabel_ok hs
          simp [isNamespace, hne, hcontrol, maxAuthorizationNamespaceBytes, hsize]
        · rename_i hstar
          rw [not_not.mp hstar]
          decide
      · exact ih hrest s' hs'

/-- The canonical form of checked namespaces is accepted as a shared set. -/
theorem tryFromShared_canonicalNamespaces {namespaces : List String} (h : validateNamespaces namespaces = .ok ()) :
    ∃ set, NamespaceSet.tryFromShared (canonicalNamespaces namespaces) = .ok set := by
  obtain ⟨hne, hlen, hvalid⟩ := validateNamespaces_ok h
  have hmem : ∀ s, s ∈ (OrderedSet.empty.extend namespaces).toList ↔ s ∈ namespaces := by
    intro s
    rw [← OrderedSet.mem_def, OrderedSet.mem_extend]
    exact ⟨fun hs => hs.elim (fun hs => absurd hs (OrderedSet.not_mem_empty s)) id, Or.inr⟩
  have hextend := NamespaceSet.length_extend_le OrderedSet.empty namespaces
  simp only [OrderedSet.empty, List.length_nil, Nat.zero_add] at hextend
  unfold canonicalNamespaces
  simp only
  split
  · exact ⟨_, rfl⟩
  · rename_i hstar
    generalize hsorted : OrderedSet.empty.extend namespaces = sorted at hmem hstar
    have hnonempty : sorted.toList ≠ [] := by
      obtain ⟨s, hs⟩ := List.exists_mem_of_ne_nil namespaces hne
      exact List.ne_nil_of_mem ((hmem s).mpr hs)
    have hbounded : ¬(sorted.toList = [] ∨ sorted.toList.length > maxAuthorizationNamespaces) := by
      rintro (hnil | hmore)
      · exact hnonempty hnil
      · rw [← hsorted] at hmore
        simp only [OrderedSet.empty] at hmore
        omega
    have hall : ∀ s ∈ sorted.toList, isNamespace s = true := fun s hs => hvalid s ((hmem s).mp hs)
    have hcanonical : ¬(¬sorted.toList.IsChain (· < ·) ∨ ("*" ∈ sorted.toList ∧ sorted.toList ≠ ["*"])) := by
      rintro (hchain | ⟨hin, -⟩)
      · exact hchain (List.isChain_iff_pairwise.mpr sorted.sorted)
      · exact hstar hin
    unfold NamespaceSet.tryFromShared
    rw [dif_neg hbounded, dif_neg (not_not.mpr hall), dif_neg hcanonical]
    exact ⟨_, rfl⟩

theorem NamespaceSet.tryNew_names (set : NamespaceSet) : NamespaceSet.tryNew set.names.toList = .ok set := by
  have hlen : ¬(set.names.toList = [] ∨ set.names.toList.length > maxAuthorizationNamespaces) := by
    rintro (hnil | hmore)
    · exact set.nonempty hnil
    · exact absurd set.bounded (Nat.not_le_of_lt hmore)
  have hvalid : ∀ s ∈ set.names.toList, isNamespace s = true := set.valid
  unfold NamespaceSet.tryNew
  rw [dif_neg hlen, dif_neg (not_not.mpr hvalid)]
  split
  · rename_i hstar
    refine congrArg Except.ok (NamespaceSet.ext_names (OrderedSet.ext_toList ?_))
    exact (set.canonical hstar).symm
  · refine congrArg Except.ok (NamespaceSet.ext_names ?_)
    exact OrderedSet.extend_toList set.names

/-! ## Snapshots -/

/-- What a grant of the document becomes in the snapshot. -/
structure GrantOf (env : AuthEnv) (declared : CredentialGrantWire) (entry : Digest × CredentialGrant) : Prop where
  digest : decodeSha256 declared.credentialSha256 = .ok entry.1
  credentialSha256 : entry.2.credentialSha256 = entry.1
  enabled : entry.2.enabled = declared.enabled
  checked : validateNamespaces declared.namespaces = .ok ()
  namespaces : entry.2.namespaces = canonicalNamespaces declared.namespaces
  actions : ∀ action, action ∈ entry.2.actions ↔ action ∈ declared.actions
  origins : declared.allowedOrigins.mapM (normalizeDeclaredOrigin env) = .ok entry.2.allowedOrigins
  missing : entry.2.allowMissingOrigin = declared.allowMissingOrigin

variable {env : AuthEnv}

/-- One turn of the loop adds the grant, under a digest that was not there. -/
theorem parseGrant_ok {credentials credentials' : List (Digest × CredentialGrant)} {declared : CredentialGrantWire}
    (h : parseGrant env credentials declared = .ok credentials') :
    ∃ entry, credentials' = credentials ++ [entry] ∧ credentials.lookup entry.1 = none ∧ GrantOf env declared entry := by
  unfold parseGrant at h
  obtain ⟨digest, hdigest, h⟩ := Except.bind_eq_ok_iff.mp h
  split at h
  · cases h
  · rename_i hfresh
    obtain ⟨-, -, h⟩ := Except.bind_eq_ok_iff.mp h
    obtain ⟨⟨⟩, hnamespaces, h⟩ := Except.bind_eq_ok_iff.mp h
    split at h
    · cases h
    · split at h
      · cases h
      · obtain ⟨allowedOrigins, horigins, h⟩ := Except.bind_eq_ok_iff.mp h
        refine ⟨_, (Except.ok.inj h).symm, ?_, hdigest, rfl, rfl, hnamespaces, rfl, fun action => List.mem_dedup, horigins, rfl⟩
        exact Option.not_isSome_iff_eq_none.mp hfresh

/-- The credentials of a snapshot are the grants of the document in order, each under a digest of its own. -/
theorem foldlM_parseGrant_ok {grants : List CredentialGrantWire} {credentials credentials' : List (Digest × CredentialGrant)}
    (h : grants.foldlM (parseGrant env) credentials = .ok credentials') (hnodup : (credentials.map Prod.fst).Nodup) :
    (∃ added, credentials' = credentials ++ added ∧ List.Forall₂ (GrantOf env) grants added) ∧
      (credentials'.map Prod.fst).Nodup := by
  induction grants generalizing credentials with
  | nil =>
    rw [List.foldlM_nil] at h
    cases h
    exact ⟨⟨[], (List.append_nil _).symm, List.Forall₂.nil⟩, hnodup⟩
  | cons declared grants ih =>
    rw [List.foldlM_cons] at h
    obtain ⟨credentials₁, hparse, h⟩ := Except.bind_eq_ok_iff.mp h
    obtain ⟨entry, rfl, hfresh, hgrant⟩ := parseGrant_ok hparse
    have hnodup₁ : ((credentials ++ [entry]).map Prod.fst).Nodup := by
      rw [List.map_append, List.nodup_append]
      refine ⟨hnodup, List.nodup_singleton _, fun digest hdigest digest' hdigest' heq => ?_⟩
      obtain ⟨known, hknown, rfl⟩ := List.mem_map.mp hdigest
      obtain rfl := List.mem_singleton.mp hdigest'
      rw [List.lookup_eq_none_iff] at hfresh
      exact absurd heq.symm (by simpa using hfresh known hknown)
    obtain ⟨⟨added, rfl, hadded⟩, hnodup'⟩ := ih h hnodup₁
    exact ⟨⟨entry :: added, by rw [List.append_assoc, List.singleton_append], hadded.cons hgrant⟩, hnodup'⟩

variable {snapshot : RegistrySnapshot} {env : RegistryEnv} {registryId : String} {body : Bytes}

/-- `parse` lists what the document declares. -/
theorem parse_ok (h : RegistrySnapshot.parse env registryId body = .ok snapshot) :
    ∃ wire, env.registryFromSlice body = .ok wire ∧ wire.registryId = registryId ∧
      List.Forall₂ (GrantOf env.toAuthEnv) wire.credentials snapshot.credentials ∧ (snapshot.credentials.map Prod.fst).Nodup := by
  unfold RegistrySnapshot.parse at h
  obtain ⟨wire, hwire, h⟩ := Except.bind_eq_ok_iff.mp h
  split at h
  · cases h
  · split at h
    · cases h
    · rename_i hid
      split at h
      · cases h
      · obtain ⟨credentials, hfold, h⟩ := Except.bind_eq_ok_iff.mp h
        cases h
        obtain ⟨⟨added, rfl, hadded⟩, hnodup⟩ := foldlM_parseGrant_ok hfold List.nodup_nil
        exact ⟨wire, hwire, not_not.mp hid, hadded, hnodup⟩

/-- The namespaces of every grant are those of a set. -/
def GrantsCanonical (credentials : List (Digest × CredentialGrant)) : Prop :=
  ∀ entry ∈ credentials, ∃ set, NamespaceSet.tryFromShared entry.2.namespaces = .ok set

/-- Every credential of a snapshot is a grant of the document. -/
theorem exists_grantOf (h : RegistrySnapshot.parse env registryId body = .ok snapshot) {entry : Digest × CredentialGrant}
    (hentry : entry ∈ snapshot.credentials) :
    ∃ wire, env.registryFromSlice body = .ok wire ∧ ∃ declared ∈ wire.credentials, GrantOf env.toAuthEnv declared entry := by
  obtain ⟨wire, hwire, -, hgrants, -⟩ := parse_ok h
  obtain ⟨i, hi, rfl⟩ := List.getElem_of_mem hentry
  have hlen := hgrants.length_eq
  refine ⟨wire, hwire, wire.credentials[i], List.getElem_mem _, ?_⟩
  exact hgrants.get (hlen ▸ hi) hi

theorem grantsCanonical_of_parse
    (h : RegistrySnapshot.parse env registryId body = .ok snapshot) : GrantsCanonical snapshot.credentials := by
  intro entry hentry
  obtain ⟨-, -, declared, -, hgrant⟩ := exists_grantOf h hentry
  rw [hgrant.namespaces]
  exact tryFromShared_canonicalNamespaces hgrant.checked

/-! ## Over the wire -/

theorem NamespaceSet.fromJson_toJson (set : NamespaceSet) : NamespaceSet.fromJson set.toJson = .ok set := by
  have hstrings : (set.names.toList.map Json.string).mapM Json.asString = .ok set.names.toList :=
    Except.mapM_map_ok (f := Json.asString) (g := Json.string) (fun _ => rfl) set.names.toList
  refine Except.bind_eq_ok_iff.mpr ⟨_, rfl, Except.bind_eq_ok_iff.mpr ⟨_, hstrings, set.tryNew_names⟩⟩

theorem Json.asU8_ofNat (b : UInt8) : Json.asU8 (.ofNat b.toNat) = .ok b := by
  have hparse : parseUnsigned 256 b.toNat.repr.toList = some b.toNat := parseUnsigned_repr b.toNat_lt
  simp only [Json.asU8, Json.ofNat, hparse, UInt8.ofNat_toNat]

theorem CredentialCachePartition.fromJson_toJson (partition : CredentialCachePartition) :
    CredentialCachePartition.fromJson partition.toJson = .ok partition := by
  have hbytes : (partition.digest.toList.map fun b => Json.ofNat b.toNat).mapM Json.asU8 = .ok partition.digest.toList :=
    Except.mapM_map_ok Json.asU8_ofNat partition.digest.toList
  refine Except.bind_eq_ok_iff.mpr ⟨_, rfl, Except.bind_eq_ok_iff.mpr ⟨_, hbytes, ?_⟩⟩
  rw [dif_pos (by simp)]
  obtain ⟨⟨array, hsize⟩⟩ := partition
  rfl

theorem RenderAuthorization.fromJson_toJson (authorization : RenderAuthorization) :
    RenderAuthorization.fromJson authorization.toJson = .ok authorization := by
  have htoken : ProviderBearerToken.fromJson authorization.providerBearerToken.toJson = .ok authorization.providerBearerToken :=
    tryNew_value authorization.providerBearerToken
  have hparts : RenderAuthorization.fromParts authorization.readableNamespaces.toJson authorization.cachePartition.toJson
      authorization.providerBearerToken.toJson = .ok authorization := by
    refine Except.bind_eq_ok_iff.mpr ⟨_, authorization.readableNamespaces.fromJson_toJson, ?_⟩
    refine Except.bind_eq_ok_iff.mpr ⟨_, authorization.cachePartition.fromJson_toJson, ?_⟩
    exact Except.bind_eq_ok_iff.mpr ⟨_, htoken, rfl⟩
  exact hparts

/-! ## Decisions -/

variable {env : AuthEnv} {headers : HeaderMap}

/-- An accepted request was decided by a grant of the snapshot, and carries the token it presented. -/
theorem decideRequest_ok {p : Presentation}
    {requiredNamespace : Option String} {action : DeliveryAction} {authorized : AuthorizedDelivery}
    (h : decideRequest env snapshot headers p requiredNamespace action = .ok authorized) :
    ∃ grant, (credentialDigest env p.registryId p.credential, grant) ∈ snapshot.credentials ∧
      authorized.readableNamespaces = grant.namespaces ∧ authorized.presentedToken = p.presented.value ∧
      authorized.cachePartition = credentialCachePartition env p.registryId p.credential snapshot.revision := by
  unfold decideRequest at h
  split at h
  · cases h
  · rename_i grant hgrant
    split at h
    · cases h
    · split at h
      · cases h
      · cases h
        obtain ⟨before, after, hsplit, -⟩ := List.lookup_eq_some_iff.mp (Option.filter_eq_some_iff.mp hgrant).1
        refine ⟨grant, ?_, rfl, rfl, rfl⟩
        rw [hsplit]
        exact List.mem_append_right before List.mem_cons_self

theorem present_ok {configured : String → Bool} {query : Option String} {p : Presentation}
    (h : present env configured headers query = .ok p) :
    deliveryToken env headers query = .ok p.presented ∧ parseTokenEnvelope p.presented.value = .ok (p.registryId, p.credential) ∧
      configured p.registryId = true := by
  unfold present at h
  obtain ⟨presented, htoken, h⟩ := Except.bind_eq_ok_iff.mp h
  obtain ⟨⟨registryId, credential⟩, henvelope, h⟩ := Except.bind_eq_ok_iff.mp h
  simp only at h
  split at h
  · rename_i hconfigured
    cases h
    exact ⟨htoken, henvelope, hconfigured⟩
  · cases h

theorem authorize_ok {configured : String → Bool} {snapshotOf : String → Option RegistrySnapshot}
    {query requiredNamespace : Option String} {action : DeliveryAction} {authorized : AuthorizedDelivery}
    (h : authorize env configured snapshotOf headers query requiredNamespace action = .ok authorized) :
    ∃ p snapshot, present env configured headers query = .ok p ∧ snapshotOf p.registryId = some snapshot ∧
      decideRequest env snapshot headers p requiredNamespace action = .ok authorized := by
  obtain ⟨p, hpresent, h⟩ := Except.bind_eq_ok_iff.mp h
  split at h
  · cases h
  · rename_i snapshot hsnapshot
    exact ⟨p, snapshot, hpresent, hsnapshot, h⟩

/-! ## Labels and the sets they make -/

namespace Labels

/-! ## Search -/

variable {labels : List String}

/-- In sorted labels what is there is found. -/
theorem isOk_binarySearch (h : labels.Pairwise (· < ·)) (name : String) :
    (binarySearch labels name).isOk = decide (name ∈ labels) := by
  rw [Bool.eq_iff_iff, decide_eq_true_iff]
  refine (BinarySearch.ascending_of_pairwise h name).isOk_binarySearchBy.trans ?_
  constructor
  · rintro ⟨x, hx, heq⟩
    rw [← compare_eq_iff_eq.mp heq]
    exact hx
  · exact fun hmem => ⟨name, hmem, compare_eq_iff_eq.mpr rfl⟩

/-- The two canonical forms are one. -/
theorem canonical_eq (labels : List String) : canonical labels = canonicalNamespaces labels := by
  simp only [canonical, canonicalNamespaces, ← OrderedSet.toList_extend_empty, isOk_binarySearch (OrderedSet.sorted _),
    decide_eq_true_eq]

theorem any_isRejected (labels : List String) : labels.any isRejected = false ↔ ∀ s ∈ labels, isNamespace s = true := by
  rw [List.any_eq_false]
  refine forall₂_congr fun s _ => ?_
  simp [isRejected, isNamespace, and_assoc]

/-- The chain of neighbours that `windows` goes through. -/
theorem any_windows2 (labels : List String) :
    (windows2 labels).any (fun pair => decide (pair.1 ≥ pair.2)) = false ↔ labels.Pairwise (· < ·) := by
  rw [← List.isChain_iff_pairwise]
  induction labels with
  | nil => simp [windows2]
  | cons a labels ih =>
    cases labels with
    | nil => simp [windows2]
    | cons b labels =>
      have hrest : windows2 (a :: b :: labels) = (a, b) :: windows2 (b :: labels) := rfl
      rw [hrest, List.any_cons, Bool.or_eq_false_iff, ih, List.isChain_cons_cons, decide_eq_false_iff_not, ge_iff_le, not_le]

/-! ## Sets -/

/-- What labels are when they are those of a set. -/
structure Canonical (labels : List String) : Prop where
  sorted : labels.Pairwise (· < ·)
  wildcard : "*" ∈ labels → labels = ["*"]

theorem canonical_canonicalNamespaces (labels : List String) : Canonical (canonicalNamespaces labels) := by
  unfold canonicalNamespaces
  dsimp only
  split
  · exact ⟨List.pairwise_singleton _ _, fun _ => rfl⟩
  · rename_i hstar
    exact ⟨OrderedSet.sorted _, fun h => absurd h hstar⟩

/-- The canonical form has the labels, unless it is the wildcard. -/
theorem mem_canonicalNamespaces (labels : List String) (name : String) :
    name ∈ canonicalNamespaces labels ↔ if "*" ∈ labels then name = "*" else name ∈ labels := by
  have hmem : ∀ s, s ∈ (OrderedSet.empty.extend labels).toList ↔ s ∈ labels := by
    intro s
    rw [← OrderedSet.mem_def, OrderedSet.mem_extend]
    exact ⟨fun h => h.elim (fun h => absurd h (OrderedSet.not_mem_empty s)) id, Or.inr⟩
  simp only [canonicalNamespaces, hmem]
  split
  · exact List.mem_singleton
  · exact hmem name

/-- The canonical form stands for what the labels stand for. -/
theorem meaning_canonicalNamespaces (labels : List String) : meaning (canonicalNamespaces labels) = meaning labels := by
  ext name
  simp only [meaning, Set.mem_ofPred_eq, mem_canonicalNamespaces]
  split
  · rename_i hstar
    simp [hstar]
  · rename_i hstar
    simp [hstar]

/-- Whether a first label is the wildcard tells whether any is. -/
theorem Canonical.head? (h : Canonical labels) : labels.head? = some "*" ↔ "*" ∈ labels := by
  constructor
  · exact List.mem_of_head?
  · intro hstar
    rw [h.wildcard hstar]
    rfl

/-- The test of a name against the labels of a set: the wildcard first, or the name found. -/
theorem Canonical.test_iff (h : Canonical labels) (name : String) :
    (labels.head? = some "*" ∨ (binarySearch labels name).isOk = true) ↔ name ∈ meaning labels := by
  rw [isOk_binarySearch h.sorted, decide_eq_true_iff, h.head?]
  rfl

/-- There are more names than labels. -/
theorem exists_not_mem (labels : List String) : ∃ name, name ∉ labels := by
  obtain ⟨name, hname⟩ := Infinite.exists_notMem_finset labels.toFinset
  exact ⟨name, fun hmem => hname (List.mem_toFinset.mpr hmem)⟩

/-- `allows` is inclusion. -/
theorem Canonical.allows_iff {a : List String} (ha : Canonical a) (b : List String) :
    allows a b = true ↔ meaning b ⊆ meaning a := by
  have hfirst : a.head?.any (· == "*") = decide ("*" ∈ a) := by
    rw [Bool.eq_iff_iff, decide_eq_true_iff, ← ha.head?, Option.any_eq_true]
    constructor
    · rintro ⟨s, hs, heq⟩
      rw [hs, beq_iff_eq.mp heq]
    · exact fun h => ⟨"*", h, beq_self_eq_true _⟩
  unfold allows
  rw [hfirst]
  split
  · rename_i hstar
    exact ⟨fun _ name _ => Or.inl (of_decide_eq_true hstar), fun _ => rfl⟩
  · rename_i hstar
    rw [decide_eq_true_eq] at hstar
    simp only [List.all_eq_true, Bool.and_eq_true, bne_iff_ne, ne_eq, isOk_binarySearch ha.sorted, decide_eq_true_eq]
    constructor
    · intro hall name hname
      rcases hname with hwild | hname
      · exact absurd rfl (hall "*" hwild).1
      · exact Or.inr (hall name hname).2
    · intro hsub
      have hwild : "*" ∉ b := by
        -- the wildcard of `b` would make all names labels of `a`
        intro hwild
        obtain ⟨name, hname⟩ := exists_not_mem a
        exact (hsub (Or.inl hwild : name ∈ meaning b)).elim hstar hname
      intro name hname
      refine ⟨fun heq => hwild (heq ▸ hname), ?_⟩
      exact (hsub (Or.inr hname)).resolve_left hstar

/-! ## What the functions give -/

/-- What `try_new` accepts, and what it makes of it. -/
theorem tryNew_eq_ok_iff {namespaces labels : List String} :
    tryNew namespaces = .ok labels ↔ (namespaces ≠ [] ∧ namespaces.length ≤ maxAuthorizationNamespaces ∧
      ∀ s ∈ namespaces, isNamespace s = true) ∧ labels = canonicalNamespaces namespaces := by
  unfold tryNew
  split
  · rename_i hlen
    rw [Bool.or_eq_true, List.isEmpty_iff, decide_eq_true_eq] at hlen
    constructor
    · exact fun h => by cases h
    · rintro ⟨⟨hne, hle, -⟩, -⟩
      exact (hlen.elim hne fun hlt => Nat.not_lt_of_le hle hlt).elim
  · rename_i hlen
    rw [Bool.or_eq_true, List.isEmpty_iff, decide_eq_true_eq, not_or, Nat.not_lt] at hlen
    split
    · rename_i hany
      constructor
      · exact fun h => by cases h
      · rintro ⟨⟨-, -, hvalid⟩, -⟩
        rw [(any_isRejected namespaces).mpr hvalid] at hany
        cases hany
    · rename_i hany
      rw [Bool.not_eq_true, any_isRejected] at hany
      rw [canonical_eq]
      exact ⟨fun h => ⟨⟨hlen.1, hlen.2, hany⟩, (Except.ok.inj h).symm⟩, fun h => congrArg Except.ok h.2.symm⟩

/-- What `try_from_shared` accepts. -/
theorem tryFromShared_eq_ok (hne : labels ≠ []) (hlen : labels.length ≤ maxAuthorizationNamespaces)
    (hvalid : ∀ s ∈ labels, isNamespace s = true) (hcanonical : Canonical labels) : tryFromShared labels = .ok labels := by
  have hbounds : (labels.isEmpty || decide (labels.length > maxAuthorizationNamespaces)) = false := by
    rw [Bool.or_eq_false_iff, decide_eq_false_iff_not, Nat.not_lt, List.isEmpty_eq_false_iff]
    exact ⟨hne, hlen⟩
  have hstar : (labels.any (· == "*") && !(labels.length == 1 && labels.head? == some "*")) = false := by
    rw [Bool.and_eq_false_iff]
    by_cases h : "*" ∈ labels
    · rw [hcanonical.wildcard h]
      exact Or.inr rfl
    · refine Or.inl (List.any_eq_false.mpr fun s hs heq => h ?_)
      rw [← beq_iff_eq.mp heq]
      exact hs
  unfold tryFromShared
  simp only [hbounds, (any_isRejected labels).mpr hvalid, (any_windows2 labels).mpr hcanonical.sorted, hstar, Bool.or_self,
    Bool.false_eq_true, if_false]

/-- The canonical form of accepted labels is accepted. -/
theorem canonicalNamespaces_valid {namespaces : List String} (hne : namespaces ≠ [])
    (hlen : namespaces.length ≤ maxAuthorizationNamespaces) (hvalid : ∀ s ∈ namespaces, isNamespace s = true) :
    canonicalNamespaces namespaces ≠ [] ∧ (canonicalNamespaces namespaces).length ≤ maxAuthorizationNamespaces ∧
      ∀ s ∈ canonicalNamespaces namespaces, isNamespace s = true := by
  refine ⟨?_, ?_, fun s hs => ?_⟩
  · obtain ⟨s, hs⟩ := List.exists_mem_of_ne_nil namespaces hne
    by_cases hstar : "*" ∈ namespaces
    · exact List.ne_nil_of_mem ((mem_canonicalNamespaces namespaces "*").mpr (by rw [if_pos hstar]))
    · exact List.ne_nil_of_mem ((mem_canonicalNamespaces namespaces s).mpr (by rwa [if_neg hstar]))
  · have hextend := NamespaceSet.length_extend_le OrderedSet.empty namespaces
    simp only [OrderedSet.empty, List.length_nil, Nat.zero_add] at hextend
    unfold canonicalNamespaces
    dsimp only
    split
    · decide
    · exact hextend.trans hlen
  · rw [mem_canonicalNamespaces] at hs
    split at hs
    · rename_i hstar
      rw [hs]
      exact hvalid "*" hstar
    · exact hvalid s hs

/-- Canonical labels are their own canonical form. -/
theorem Canonical.canonicalNamespaces_eq (h : Canonical labels) : canonicalNamespaces labels = labels := by
  by_cases hstar : "*" ∈ labels
  · rw [h.wildcard hstar]
    decide +kernel
  · have hset := OrderedSet.extend_toList ⟨labels, h.sorted⟩
    simp only [canonicalNamespaces, hset, if_neg hstar]

/-- What `try_new` gives is canonical, and passes the checks of both constructors. -/
theorem tryNew_ok {namespaces labels : List String} (h : tryNew namespaces = .ok labels) :
    Canonical labels ∧ tryNew labels = .ok labels ∧ tryFromShared labels = .ok labels := by
  obtain ⟨⟨hne, hlen, hvalid⟩, rfl⟩ := tryNew_eq_ok_iff.mp h
  have hcanonical := canonical_canonicalNamespaces namespaces
  obtain ⟨hne', hlen', hvalid'⟩ := canonicalNamespaces_valid hne hlen hvalid
  refine ⟨hcanonical, tryNew_eq_ok_iff.mpr ⟨⟨hne', hlen', hvalid'⟩, hcanonical.canonicalNamespaces_eq.symm⟩, ?_⟩
  exact tryFromShared_eq_ok hne' hlen' hvalid' hcanonical

/-- What is read of the labels that were written is made anew of them. -/
theorem fromJson_toJson (labels : List String) : fromJson (toJson labels) = tryNew labels := by
  have hstrings : (labels.map Json.string).mapM Json.asString = .ok labels :=
    Except.mapM_map_ok (f := Json.asString) (g := Json.string) (fun _ => rfl) labels
  change ((labels.map Json.string).mapM Json.asString >>= tryNew) = tryNew labels
  rw [hstrings]
  rfl

end Labels

/-! ## The sets of the model -/

/-- A set allows what its labels allow. -/
theorem NamespaceSet.allows_eq (a b : NamespaceSet) : a.allows b = Labels.allows a.names.toList b.names.toList := by
  have hfirst : a.names.toList.head?.any (· == "*") = decide (a.names.toList.head? = some "*") := by
    cases a.names.toList.head? with
    | none => rfl
    | some s =>
      rw [Option.any_some, Bool.eq_iff_iff, beq_iff_eq, decide_eq_true_iff, Option.some_inj]
  unfold NamespaceSet.allows Labels.allows
  rw [hfirst]
  split
  · rename_i hstar
    rw [if_pos (decide_eq_true hstar)]
  · rename_i hstar
    rw [if_neg (by rw [decide_eq_true_iff]; exact hstar)]
    refine List.all_congr rfl fun s => ?_
    rw [Labels.isOk_binarySearch a.names.sorted]
    congr 1
    rw [Bool.eq_iff_iff, decide_eq_true_iff, bne_iff_ne]

/-- A set is made of the labels that `try_new` makes, and when it is. -/
theorem NamespaceSet.tryNew_map (namespaces : List String) :
    (NamespaceSet.tryNew namespaces).map (·.names.toList) = Labels.tryNew namespaces := by
  cases hlabels : Labels.tryNew namespaces with
  | ok labels =>
    obtain ⟨⟨hne, hlen, hvalid⟩, rfl⟩ := Labels.tryNew_eq_ok_iff.mp hlabels
    have hbounds : ¬(namespaces = [] ∨ namespaces.length > maxAuthorizationNamespaces) := by
      rintro (hnil | hmore)
      · exact hne hnil
      · exact Nat.not_lt_of_le hlen hmore
    have hmem : "*" ∈ (OrderedSet.empty.extend namespaces).toList ↔ "*" ∈ namespaces := by
      rw [← OrderedSet.mem_def, OrderedSet.mem_extend]
      exact ⟨fun h => h.elim (fun h => absurd h (OrderedSet.not_mem_empty _)) id, Or.inr⟩
    unfold NamespaceSet.tryNew canonicalNamespaces
    rw [dif_neg hbounds, dif_neg (not_not.mpr hvalid)]
    simp only [hmem]
    split
    · rfl
    · rfl
  | error e =>
    unfold Labels.tryNew at hlabels
    unfold NamespaceSet.tryNew
    split at hlabels
    · rename_i hlen
      rw [Bool.or_eq_true, List.isEmpty_iff, decide_eq_true_eq] at hlen
      rw [dif_pos hlen, ← Except.error.inj hlabels]
      rfl
    · rename_i hlen
      rw [Bool.or_eq_true, List.isEmpty_iff, decide_eq_true_eq] at hlen
      split at hlabels
      · rename_i hany
        have hvalid : ¬∀ s ∈ namespaces, isNamespace s = true := by
          intro hvalid
          rw [(Labels.any_isRejected namespaces).mpr hvalid] at hany
          cases hany
        rw [dif_neg hlen, dif_pos hvalid, ← Except.error.inj hlabels]
        rfl
      · cases hlabels

theorem not_all_ne_star (first : Option String) : (!first.all (· != "*")) = (first == some "*") := by
  cases first with
  | none => rfl
  | some s =>
    rw [Option.all_some, bne, Bool.not_not]
    rfl

/-- The namespace test of `authorize` is that of the decision. -/
theorem CredentialGrant.passes_eq_covers {grant : CredentialGrant} (h : Labels.Canonical grant.namespaces) (name : String) :
    grant.passes name = grant.covers name := by
  unfold passes covers
  rw [Labels.isOk_binarySearch h.sorted, Bool.not_and, Bool.not_not, not_all_ne_star, List.contains_eq_mem]

/-- The test passes for the namespaces that the labels stand for. -/
theorem CredentialGrant.passes_iff {grant : CredentialGrant} (h : Labels.Canonical grant.namespaces) (name : String) :
    grant.passes name = true ↔ name ∈ Labels.meaning grant.namespaces := by
  rw [← h.test_iff]
  unfold passes
  rw [Bool.not_and, Bool.not_not, not_all_ne_star, Bool.or_eq_true, beq_iff_eq]

/-! ## The checks of `authorize` and the rule -/

/-! ## The presented credential -/

variable {headers : HeaderMap}

theorem bearerToken_eq_none : bearerToken headers = .ok none ↔ headers.getAll "authorization" = [] := by
  unfold bearerToken
  constructor
  · intro h
    split at h
    · assumption
    · split at h
      · cases h
      · split at h
        · cases h
        · split at h
          · cases h
          · cases h
    · cases h
  · intro h
    simp [h]

variable {token : String}

/-- The header is accepted when there is one, and it is a bearer token. -/
theorem bearerToken_eq_some :
    bearerToken headers = .ok (some token) ↔ ∃ value, headers.getAll "authorization" = [value] ∧ IsBearer value token := by
  constructor
  · intro h
    unfold bearerToken at h
    split at h
    · cases h
    · rename_i value hvalue
      split at h
      · cases h
      · rename_i text htext
        split at h
        · cases h
        · rename_i scheme rest hsplit
          split at h
          · cases h
          · rename_i hchecks
            simp only [not_or, not_not, Bool.not_eq_true] at hchecks
            obtain ⟨hscheme, hempty, hspaces⟩ := hchecks
            obtain ⟨htoken, -⟩ := splitOnce_eq_some hsplit
            cases Except.ok.inj h
            refine ⟨value, hvalue, ⟨scheme, ?_, hscheme⟩, ?_, ?_⟩
            · rw [htext, htoken, String.toList_ofList]
            · intro hnil
              have hrest : rest = [] := by simpa using congrArg String.toList hnil
              rw [hrest] at hempty
              cases hempty
            · rw [String.toList_ofList]
              simpa using hspaces
    · cases h
  · rintro ⟨value, hvalue, ⟨scheme, htext, hscheme⟩, hempty, hspaces⟩
    have hspace : ' ' ∉ scheme := by
      -- a space is no letter of `bearer` in any case
      intro hmem
      have hlower : Char.toLower ' ' ∈ "bearer".toList := hscheme ▸ List.mem_map_of_mem hmem
      exact absurd hlower (by decide)
    have hne : token.toList.isEmpty = false := by
      rw [List.isEmpty_eq_false_iff]
      intro hnil
      exact hempty (String.toList_injective (by simpa using hnil))
    have hany : token.toList.any isWhitespace = false := by simpa using hspaces
    simp [bearerToken, hvalue, htext, splitOnce_append hspace, hscheme, hne, hany]

theorem accessTokenFromQuery_eq (env : AuthEnv) (query : Option String) :
    accessTokenFromQuery env query =
      match accessTokens env query with
      | [] => .ok none
      | [token] => .ok (some token)
      | _ :: _ :: _ => .error .invalidCredential := by
  cases query with
  | none => rfl
  | some query =>
    simp only [accessTokenFromQuery, accessTokens]
    generalize (env.formUrlencodedParse query).filter (fun pair => pair.1 == "access_token") = found
    rcases found with _ | ⟨_, _ | ⟨_, _⟩⟩
    · rfl
    · rfl
    · rfl

variable {env : AuthEnv} {query : Option String}

theorem accessTokenFromQuery_eq_none :
    accessTokenFromQuery env query = .ok none ↔ accessTokens env query = [] := by
  rw [accessTokenFromQuery_eq]
  rcases accessTokens env query with _ | ⟨_, _ | ⟨_, _⟩⟩ <;> simp

theorem accessTokenFromQuery_eq_some :
    accessTokenFromQuery env query = .ok (some token) ↔ accessTokens env query = [token] := by
  rw [accessTokenFromQuery_eq]
  rcases accessTokens env query with _ | ⟨_, _ | ⟨_, _⟩⟩ <;> simp

/-- The token that `delivery_token` gives is the one that the request presents. -/
theorem deliveryToken_ok_iff :
    (∃ fromQuery, deliveryToken env headers query = .ok ⟨token, fromQuery⟩) ↔ Presents env headers query token := by
  constructor
  · rintro ⟨fromQuery, h⟩
    unfold deliveryToken at h
    obtain ⟨bearer, hbearer, h⟩ := Except.bind_eq_ok_iff.mp h
    obtain ⟨parameter, hparameter, h⟩ := Except.bind_eq_ok_iff.mp h
    rcases bearer with _ | bearer <;> rcases parameter with _ | parameter
    · cases h
    · obtain ⟨rfl, -⟩ := PresentedCredential.mk.inj (Except.ok.inj h)
      exact .parameter (bearerToken_eq_none.mp hbearer) (accessTokenFromQuery_eq_some.mp hparameter)
    · obtain ⟨rfl, -⟩ := PresentedCredential.mk.inj (Except.ok.inj h)
      obtain ⟨value, hvalue, hshape⟩ := bearerToken_eq_some.mp hbearer
      exact .header value hvalue hshape (accessTokenFromQuery_eq_none.mp hparameter)
    · cases h
  · intro h
    cases h with
    | header value hvalue hshape hquery =>
      refine ⟨false, Except.bind_eq_ok_iff.mpr ⟨_, bearerToken_eq_some.mpr ⟨value, hvalue, hshape⟩, ?_⟩⟩
      exact Except.bind_eq_ok_iff.mpr ⟨_, accessTokenFromQuery_eq_none.mpr hquery, rfl⟩
    | parameter hheader honly =>
      refine ⟨true, Except.bind_eq_ok_iff.mpr ⟨_, bearerToken_eq_none.mpr hheader, ?_⟩⟩
      exact Except.bind_eq_ok_iff.mpr ⟨_, accessTokenFromQuery_eq_some.mpr honly, rfl⟩

/-! ## The envelope -/

/-- An envelope is accepted when the registry's identifier is valid and the rest is a credential. -/
theorem parseTokenEnvelope_ok_iff {token registryId credential : String} :
    parseTokenEnvelope token = .ok (registryId, credential) ↔
      IsEnvelope token registryId credential ∧ validateRegistryId registryId = .ok () ∧ IsCredential credential := by
  constructor
  · intro h
    unfold parseTokenEnvelope at h
    split at h
    · cases h
    · rename_i before after hsplit
      obtain ⟨htext, hfirst⟩ := splitOnce_eq_some hsplit
      split at h
      · cases h
      · rename_i hregistry
        split at h
        · cases h
        · rename_i hcredential
          simp only [not_or, Bool.not_eq_true, Nat.not_lt, Bool.not_eq_false'] at hcredential
          obtain ⟨hempty, hsize, hbytes⟩ := hcredential
          cases h
          refine ⟨⟨?_, ?_⟩, hregistry, ?_, hsize, ?_⟩
          · rw [String.toList_ofList, String.toList_ofList, htext]
          · rw [String.toList_ofList]
            exact hfirst
          · intro hnil
            have hafter : after = [] := by simpa using congrArg String.toList hnil
            rw [hafter] at hempty
            cases hempty
          · rw [String.toList_ofList]
            exact List.all_eq_true.mp hbytes
  · rintro ⟨⟨htext, hfirst⟩, hregistry, hempty, hsize, hbytes⟩
    have hne : credential.toList.isEmpty = false := by
      rw [List.isEmpty_eq_false_iff]
      intro hnil
      exact hempty (String.toList_injective (by simpa using hnil))
    have hall : credential.toList.all isTokenByte = true := List.all_eq_true.mpr hbytes
    simp only [parseTokenEnvelope, htext, splitOnce_append hfirst, String.ofList_toList, hregistry, hne, hall, Bool.not_true,
      Bool.false_eq_true, false_or, or_false]
    rw [if_neg (Nat.not_lt.mpr hsize)]

/-! ## The origin -/

theorem originHeader_eq_none {name : String} {normalize : String → Except String String} :
    originHeader headers name normalize = .ok none ↔ headers.getAll name = [] := by
  unfold originHeader singleHeader
  constructor
  · intro h
    split at h
    · cases h
    · rename_i hnone
      split at hnone
      · assumption
      · split at hnone
        · cases hnone
        · cases hnone
      · cases hnone
    · split at h
      · cases h
      · cases h
  · intro h
    simp [h]

/-- The header gives the origin that its only value says. -/
theorem originHeader_eq_some {name : String} {normalize : String → Except String String} {origin : String} :
    originHeader headers name normalize = .ok (some origin) ↔ HeaderOrigin headers name normalize origin := by
  constructor
  · intro h
    unfold originHeader at h
    split at h
    · cases h
    · cases h
    · rename_i raw hraw
      split at h
      · cases h
      · rename_i found hfound
        cases Except.ok.inj h
        unfold singleHeader at hraw
        split at hraw
        · cases hraw
        · rename_i value hvalue
          split at hraw
          · cases hraw
          · rename_i text htext
            cases Except.ok.inj hraw
            exact ⟨value, text, hvalue, htext, hfound⟩
        · cases hraw
  · rintro ⟨value, text, hvalue, htext, hnormalize⟩
    simp [originHeader, singleHeader, hvalue, htext, hnormalize]

variable {grant : CredentialGrant}

theorem originAllowed_some {origin : String} :
    originAllowed grant (some origin) = .ok () ↔ origin ∈ grant.allowedOrigins := by
  unfold originAllowed
  split <;> simp_all

theorem originAllowed_none : originAllowed grant none = .ok () ↔ grant.allowMissingOrigin = true := by
  unfold originAllowed
  split <;> simp_all

/-- `authorize_origin` accepts what is permitted. -/
theorem authorizeOrigin_ok_iff :
    authorizeOrigin env headers grant = .ok () ↔ OriginPermitted env headers grant := by
  constructor
  · intro h
    unfold authorizeOrigin at h
    split at h
    · rename_i hnone
      exact .undeclared (List.isEmpty_iff.mp hnone)
    · split at h
      · cases h
      · rename_i origin horigin
        exact .origin origin (originHeader_eq_some.mp horigin) (originAllowed_some.mp h)
      · rename_i habsent
        have habsent := originHeader_eq_none.mp habsent
        split at h
        · cases h
        · rename_i found hfound
          cases found with
          | some origin => exact .referer origin habsent (originHeader_eq_some.mp hfound) (originAllowed_some.mp h)
          | none => exact .missing habsent (originHeader_eq_none.mp hfound) (originAllowed_none.mp h)
  · intro h
    unfold authorizeOrigin
    split
    · rfl
    · rename_i hsome
      cases h with
      | undeclared hnone => exact absurd (List.isEmpty_iff.mpr hnone) hsome
      | origin origin hheader hdeclared => simp [originHeader_eq_some.mpr hheader, originAllowed_some, hdeclared]
      | referer origin habsent hheader hdeclared =>
        simp [originHeader_eq_none.mpr habsent, originHeader_eq_some.mpr hheader, originAllowed_some, hdeclared]
      | missing habsent habsent' hallowed =>
        simp [originHeader_eq_none.mpr habsent, originHeader_eq_none.mpr habsent', originAllowed_none, hallowed]

/-! ## The decision -/

/-- In a snapshot that was parsed a credential is listed once, and looked up where it is listed. -/
theorem lookup_credential_iff {env : RegistryEnv} {registryId : String} {body : Bytes} {snapshot : RegistrySnapshot}
    (h : RegistrySnapshot.parse env registryId body = .ok snapshot) {digest : Digest} :
    snapshot.credentials.lookup digest = some grant ↔ (digest, grant) ∈ snapshot.credentials := by
  obtain ⟨-, -, -, -, hnodup⟩ := parse_ok h
  constructor
  · intro hlookup
    obtain ⟨before, after, hsplit, -⟩ := List.lookup_eq_some_iff.mp hlookup
    rw [hsplit]
    exact List.mem_append_right before List.mem_cons_self
  · intro hmem
    obtain ⟨before, after, hsplit⟩ := List.append_of_mem hmem
    refine List.lookup_eq_some_iff.mpr ⟨before, after, hsplit, fun entry hentry => ?_⟩
    -- the digest is listed once, so it is not that of an entry before
    rw [hsplit, List.map_append, List.map_cons, List.nodup_append] at hnodup
    have hne := hnodup.2.2 entry.1 (List.mem_map_of_mem hentry) digest List.mem_cons_self
    simpa using Ne.symm hne

/-- A request is granted by the credential's grant in the snapshot, if that permits it. -/
theorem decideRequest_ok_iff {env : RegistryEnv} {registryId : String} {body : Bytes} {snapshot : RegistrySnapshot}
    (hparse : RegistrySnapshot.parse env registryId body = .ok snapshot) {p : Presentation}
    {requiredNamespace : Option String} {action : DeliveryAction} :
    (∃ authorized, decideRequest env.toAuthEnv snapshot headers p requiredNamespace action = .ok authorized) ↔
      ∃ grant, (credentialDigest env.toAuthEnv p.registryId p.credential, grant) ∈ snapshot.credentials ∧
        Permits env.toAuthEnv headers requiredNamespace action grant := by
  have hcovers : ∀ {entry}, entry ∈ snapshot.credentials → ∀ name, entry.2.covers name = true ↔
      name ∈ Labels.meaning entry.2.namespaces := by
    intro entry hentry name
    obtain ⟨-, -, declared, -, hgrant⟩ := exists_grantOf hparse hentry
    have hcanonical : Labels.Canonical entry.2.namespaces := hgrant.namespaces ▸ Labels.canonical_canonicalNamespaces _
    rw [← CredentialGrant.passes_eq_covers hcanonical, CredentialGrant.passes_iff hcanonical]
  constructor
  · rintro ⟨authorized, h⟩
    unfold decideRequest at h
    split at h
    · cases h
    · rename_i grant hgrant
      obtain ⟨hlookup, henabled⟩ := Option.filter_eq_some_iff.mp hgrant
      have hlisted := (lookup_credential_iff hparse).mp hlookup
      split at h
      · cases h
      · rename_i hchecks
        rw [Bool.or_eq_true, not_or, Bool.not_eq_true, Bool.not_eq_true, Bool.not_eq_false', Option.any_eq_false] at hchecks
        split at h
        · cases h
        · rename_i horigin
          refine ⟨grant, hlisted, (Bool.and_eq_true_iff.mp henabled).1, ?_, by simpa using hchecks.2,
            authorizeOrigin_ok_iff.mp horigin⟩
          intro name hname
          have hname := hchecks.1 name hname
          exact (hcovers hlisted name).mp (by simpa using hname)
  · rintro ⟨grant, hlisted, hpermits⟩
    obtain ⟨-, -, declared, -, hgrant⟩ := exists_grantOf hparse hlisted
    have hlookup := (lookup_credential_iff hparse).mpr hlisted
    have hfound : (snapshot.credentials.lookup (credentialDigest env.toAuthEnv p.registryId p.credential)).filter (fun grant =>
        grant.enabled && grant.credentialSha256 == credentialDigest env.toAuthEnv p.registryId p.credential) = some grant := by
      rw [hlookup, Option.filter_eq_some_iff]
      refine ⟨rfl, ?_⟩
      rw [hpermits.enabled, hgrant.credentialSha256, Bool.true_and, beq_self_eq_true]
    have hcovered : requiredNamespace.any (fun name => !grant.covers name) = false := by
      rw [Option.any_eq_false]
      intro name hname
      have hcovered := (hcovers hlisted name).mpr (hpermits.covered name hname)
      simpa using hcovered
    have hgranted : grant.actions.contains action = true := by simpa using hpermits.granted
    simp only [decideRequest, hfound, hcovered, hgranted, authorizeOrigin_ok_iff.mpr hpermits.origin, Bool.not_true, Bool.or_self,
      Bool.false_eq_true, if_false]
    exact ⟨_, rfl⟩

end Biei
