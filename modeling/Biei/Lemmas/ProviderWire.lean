import Biei.Ishikari.ProviderWire
import Biei.Lemmas.ProviderRoute

/-! # Lemmas on provider resources on the wire -/

namespace Biei.Ishikari

open Provider (HttpError ProviderResource Validators)
open Storage (Peer PeerFetchError ScoredPeer)
open HeaderMap (sent)

/-! ## Bodies -/

variable {limit : Nat}

theorem readChunks_eq_ok {chunks : List Bytes} {body : Bytes} (hlimit : limit < u64Bound)
    (h : body.length + chunks.flatten.length ≤ limit) : readChunks limit none body chunks = .ok (body ++ chunks.flatten) := by
  induction chunks generalizing body with
  | nil => simp [readChunks]
  | cons chunk chunks ih =>
    rw [List.flatten_cons, List.length_append] at h
    have hnext : checkedAdd body.length chunk.length = some (body.length + chunk.length) := if_pos (by omega)
    rw [readChunks, hnext]
    simp only [if_neg (show ¬body.length + chunk.length > limit by omega)]
    rw [ih (by rw [List.length_append]; omega), List.flatten_cons, List.append_assoc]

/-- A response as it may be received. -/
def HttpResponse.reply (response : HttpResponse) : PeerReply :=
    ⟨response.status, response.headers.received, none, [response.body], none⟩

theorem HttpResponse.delivers_reply (response : HttpResponse) : response.Delivers response.reply where
  status := rfl
  headers := rfl
  contentLength := fun _ h => by cases h
  body := List.flatten_singleton
  complete := rfl

variable {reply : PeerReply}

theorem readBoundedBody_eq_ok {response : HttpResponse} (h : response.Delivers reply)
    (hlimit : limit < u64Bound) (hbody : response.body.length ≤ limit) : readBoundedBody reply limit = .ok response.body := by
  have hlength : ¬(reply.contentLength.any fun length => decide (length > limit)) = true := by
    rw [Option.any_eq_true_iff_get]
    rintro ⟨hsome, hlt⟩
    have heq := h.contentLength _ (Option.some_get hsome).symm
    have hgt := of_decide_eq_true hlt
    omega
  rw [readBoundedBody, if_neg hlength, h.complete, readChunks_eq_ok hlimit (by rw [h.body]; simpa using hbody), h.body]
  rfl

/-- What the owner may fetch, the route may carry. -/
theorem maxBytes_le_providerBodyLimit (resource : ResourceName) :
    resource.maxBytes ≤ providerBodyLimit resource.internalPath := by
  have hstyles : ∀ rest, (utf8 "/_internal/provider/fonts/").isPrefixOf (utf8 "/_internal/provider/styles/" ++ rest) = false :=
    fun _ => rfl
  have hlead : ∀ lead rest : Bytes, lead.isPrefixOf (lead ++ rest) = true := fun lead rest =>
    List.isPrefixOf_iff_prefix.mpr (List.prefix_append lead rest)
  cases resource with
  | style styleKey =>
    have hsuffix : ∀ text : Bytes, (utf8 "/style.json").isSuffixOf (text ++ utf8 "/style.json") = true := fun text =>
      List.isSuffixOf_iff_suffix.mpr (List.suffix_append text _)
    rw [ResourceName.internalPath, providerBodyLimit, List.append_assoc, hstyles, hlead, ← List.append_assoc, hsuffix]
    exact le_rfl
  | glyph fontstack range =>
    rw [ResourceName.internalPath, providerBodyLimit, List.append_assoc, List.append_assoc, List.append_assoc, hlead]
    exact le_rfl
  | sprite styleKey variant =>
    have hsuffix : ∀ text : Bytes, ¬(utf8 "/style.json").isSuffixOf (text ++ (utf8 "/sprite" ++ utf8 variant.suffix)) = true := by
      intro text hsuffix
      have htail : ¬utf8 "/style.json" <:+ utf8 "/sprite" ++ utf8 variant.suffix ∧
          ¬utf8 "/sprite" ++ utf8 variant.suffix <:+ utf8 "/style.json" := by
        cases variant <;> decide
      rcases List.suffix_or_suffix_of_suffix (List.isSuffixOf_iff_suffix.mp hsuffix) (List.suffix_append text _) with h | h
      · exact htail.1 h
      · exact htail.2 h
    have hsprite : utf8 "/sprite" <:+: utf8 "/_internal/provider/styles/" ++ pathPercentEncodeSegments (utf8 styleKey) ++ utf8
      "/sprite" ++
        utf8 variant.suffix := ⟨_, _, rfl⟩
    have hmax : (ResourceName.sprite styleKey variant).maxBytes ≤ 8 * 1024 * 1024 := by
      rw [ResourceName.maxBytes]
      cases variant <;> decide
    rw [ResourceName.internalPath, providerBodyLimit, if_neg, if_pos, if_neg, if_pos hsprite]
    · exact hmax
    · rw [List.append_assoc]
      exact hsuffix _
    · rw [List.append_assoc, List.append_assoc]
      exact hlead _ _
    · rw [List.append_assoc, List.append_assoc, hstyles]
      exact Bool.false_ne_true

theorem providerBodyLimit_lt (path : Bytes) : providerBodyLimit path < u64Bound := by
  unfold providerBodyLimit
  split
  · decide
  · split
    · split
      · decide
      · split <;> decide
    · decide

/-! ## Headers -/

theorem isFieldText_repr (n : Nat) : IsFieldText n.repr.toList := by
  have hdigit : ∀ c ∈ n.repr.toList, 48 ≤ c.toNat ∧ c.toNat ≤ 57 := fun c hc => by
    simpa [Char.isDigit, UInt32.le_iff_toNat_le] using isDigit_of_mem_repr hc
  have hblank : ∀ c ∈ n.repr.toList, c ≠ ' ' ∧ c ≠ '\t' := by
    intro c hc
    have h := hdigit c hc
    refine ⟨?_, ?_⟩ <;> rintro rfl <;> exact absurd h (by decide)
  refine ⟨fun c hc => Or.inr ?_, fun c hc => hblank c (List.mem_of_mem_head? hc), fun c hc =>
    hblank c (List.mem_of_mem_getLast? hc)⟩
  have h := hdigit c hc
  omega

variable {env : WireEnv}

/-- What the client reads of the headers of an owner's response. -/
theorem getStr_internalHeaders {r : ProviderResource} {contentType : String} {headers : HeaderMap}
    (h : applyInternalHeaders env r ⟨[("content-type", utf8 contentType)]⟩ = some headers) :
    ∃ lastModified, lastModifiedHttpDate env r.validators = some lastModified ∧
      headers.received.getStr "x-ishikari-provider-cache-control" = sent r.cacheControl ∧
      headers.received.getStr "x-ishikari-provider-age" = some r.ageSeconds.repr.toList ∧
      headers.received.getStr "x-ishikari-provider-etag" = r.validators.etag.bind sent ∧
      headers.received.getStr "x-ishikari-provider-last-modified" = lastModified.bind sent ∧
      headers.received.getStr "content-encoding" = r.contentEncoding.bind sent := by
  obtain ⟨cacheControl, hcacheControl, h⟩ := Option.bind_eq_some_iff.mp h
  obtain ⟨age, hage, h⟩ := Option.bind_eq_some_iff.mp h
  obtain ⟨lastModified, hlastModified, h⟩ := Option.bind_eq_some_iff.mp h
  have hsentAge : sent r.ageSeconds.repr.toList = some r.ageSeconds.repr.toList := sent_eq_some_iff.mpr (isFieldText_repr _)
  have hbase : ∀ name, name ≠ "content-type" → (HeaderMap.mk [("content-type", utf8 contentType)]).received.getStr name =
    none := by
    intro name hname
    simp [HeaderMap.getStr, HeaderMap.getAll, HeaderMap.received, Ne.symm hname]
  cases h
  refine ⟨lastModified, hlastModified, ?_, ?_, ?_, ?_, ?_⟩
  · rw [HeaderMap.getStr_received_insertText_of_ne _ (by decide), HeaderMap.getStr_received_insertText_of_ne _ (by decide),
      HeaderMap.getStr_received_insertText_of_ne _ (by decide), HeaderMap.getStr_received_insert_of_ne _ (by decide),
      HeaderMap.getStr_received_insert_self, sent, hcacheControl]
    rfl
  · rw [HeaderMap.getStr_received_insertText_of_ne _ (by decide), HeaderMap.getStr_received_insertText_of_ne _ (by decide),
      HeaderMap.getStr_received_insertText_of_ne _ (by decide), HeaderMap.getStr_received_insert_self, ← hsentAge, sent, hage]
    rfl
  · rw [HeaderMap.getStr_received_insertText_of_ne _ (by decide), HeaderMap.getStr_received_insertText_of_ne _ (by decide),
      HeaderMap.getStr_received_insertText_self]
    rw [HeaderMap.getStr_received_insert_of_ne _ (by decide), HeaderMap.getStr_received_insert_of_ne _ (by decide),
      hbase _ (by decide)]
  · rw [HeaderMap.getStr_received_insertText_of_ne _ (by decide), HeaderMap.getStr_received_insertText_self]
    rw [HeaderMap.getStr_received_insertText_of_ne _ (by decide), HeaderMap.getStr_received_insert_of_ne _ (by decide),
      HeaderMap.getStr_received_insert_of_ne _ (by decide), hbase _ (by decide)]
  · rw [HeaderMap.getStr_received_insertText_self]
    rw [HeaderMap.getStr_received_insertText_of_ne _ (by decide), HeaderMap.getStr_received_insertText_of_ne _ (by decide),
      HeaderMap.getStr_received_insert_of_ne _ (by decide), HeaderMap.getStr_received_insert_of_ne _ (by decide),
        hbase _ (by decide)]

/-! ## Responses -/

theorem authoritativeProviderNegative_ok (path : Bytes) (headers : HeaderMap) :
    authoritativeProviderNegative path 200 headers = none := by
  unfold authoritativeProviderNegative
  split
  · rfl
  · split <;> rfl

variable {resource : ResourceName}

attribute [local simp] fetchProviderPath in
/-- What the client makes of a representation that the owner answers with. -/
theorem fetchProviderPath_internalResponse {r : ProviderResource} {response : HttpResponse}
    (h : internalResponse env r resource.contentType = some response) (hreply : response.Delivers reply)
    (hbody : r.bytes.length ≤ resource.maxBytes) (hage : r.ageSeconds < u64Bound) :
    ∃ lastModified, lastModifiedHttpDate env r.validators = some lastModified ∧
      fetchProviderPath env resource.internalPath (.answered reply) =
        .ok ⟨r.bytes, sent r.cacheControl, some r.ageSeconds, r.validators.etag.bind sent, lastModified.bind sent,
          r.contentEncoding.bind sent⟩ := by
  obtain ⟨headers, hheaders, rfl⟩ := Option.map_eq_some_iff.mp h
  obtain ⟨lastModified, hlastModified, hcacheControl, hageText, hetag, hdate, hencoding⟩ := getStr_internalHeaders hheaders
  refine ⟨lastModified, hlastModified, ?_⟩
  have hstatus : reply.status = 200 := hreply.status
  have hread : readBoundedBody reply (providerBodyLimit resource.internalPath) = .ok r.bytes :=
    readBoundedBody_eq_ok hreply (providerBodyLimit_lt _) (le_trans hbody (maxBytes_le_providerBodyLimit resource))
  rw [fetchProviderPath, hstatus, authoritativeProviderNegative_ok, hreply.headers]
  simp only [hread, hcacheControl, hageText, hetag, hdate, hencoding, Option.bind_some, parseUnsigned_repr hage]
  rfl

/-- The representation, with its date to the second. -/
def toSecond (r : ProviderResource) : ProviderResource :=
  { r with validators := ⟨r.validators.etag, r.validators.lastModified.map fun t => t / second * second⟩ }

theorem lastModifiedHttpDate_toSecond (env : WireEnv) (r : ProviderResource) :
    lastModifiedHttpDate env (toSecond r).validators = lastModifiedHttpDate env r.validators := by
  unfold lastModifiedHttpDate toSecond
  cases r.validators.lastModified with
  | none => rfl
  | some t => simp only [Option.map_some, env.fmtHttpDate_second]

/-- A date is compared to the second. -/
theorem notModified_toSecond (env : WireEnv) (r : ProviderResource) (request : HeaderMap) :
    notModified env (toSecond r).validators request = notModified env r.validators request := by
  have hsecond : ∀ t : Nat, t / second * second / second * second = t / second * second := fun t => by
    rw [Nat.mul_div_cancel _ (by decide : 0 < second)]
  unfold notModified toSecond
  cases r.validators.lastModified with
  | none => rfl
  | some t =>
    cases (request.getAll "if-modified-since").head? with
    | none => rfl
    | some value => simp only [Option.map_some, hsecond]

/-- What is served of a representation does not depend on what is below a second. -/
theorem publicResponse_toSecond (env : WireEnv) (r : ProviderResource) (request : HeaderMap) (body : Bytes)
    (contentType : String) :
    publicResponse env (toSecond r) request body contentType = publicResponse env r request body contentType := by
  have hmetadata : ∀ headers, applyCacheMetadata env (toSecond r) headers = applyCacheMetadata env r headers := by
    intro headers
    unfold applyCacheMetadata
    rw [lastModifiedHttpDate_toSecond]
    rfl
  simp only [publicResponse, notModified_toSecond, hmetadata]
  rfl

/-! ## Missing resources -/

/-- The response says that the resource is missing, and is marked so. -/
def PeerReply.Marked (reply : PeerReply) (status : Nat) : Prop :=
  reply.status = status ∧
    (status = 404 ∧ reply.headers.getStr providerNegativeHeader = some "not-found".toList ∨
      status = 410 ∧ reply.headers.getStr providerNegativeHeader = some "gone".toList)

variable {marker : InternalProviderNegative}

theorem InternalProviderNegative.of_parse {value : List Char} (h : parse value = some marker) :
    value = marker.asStr.toList := by
  unfold parse at h
  split at h
  · cases h
    assumption
  · split at h
    · cases h
      assumption
    · cases h

/-- The status that a marker stands for. -/
def InternalProviderNegative.status : InternalProviderNegative → Nat
  | .notFound => 404
  | .gone => 410

/-- What the client makes of a marker. -/
def InternalProviderNegative.error : InternalProviderNegative → PeerFetchError
  | .notFound => .providerNotFound
  | .gone => .providerGone

/-- Only a marked response makes a resource missing. -/
theorem marked_of_authoritative {path : Bytes}
    (h : authoritativeProviderNegative path reply.status reply.headers = some marker) : reply.Marked marker.status := by
  unfold authoritativeProviderNegative at h
  split at h
  · cases h
  · split at h
    · rename_i hparse
      split at h
      · rename_i hstatus
        cases h
        obtain ⟨value, hvalue, hmarker⟩ := Option.bind_eq_some_iff.mp hparse
        exact ⟨hstatus, Or.inl ⟨rfl, by rw [hvalue, InternalProviderNegative.of_parse hmarker]; rfl⟩⟩
      · cases h
    · rename_i hparse
      split at h
      · rename_i hstatus
        cases h
        obtain ⟨value, hvalue, hmarker⟩ := Option.bind_eq_some_iff.mp hparse
        exact ⟨hstatus, Or.inr ⟨rfl, by rw [hvalue, InternalProviderNegative.of_parse hmarker]; rfl⟩⟩
      · cases h
    · cases h

/-- A body that cannot be read is a fatal failure. -/
theorem readBoundedBody_error {e : PeerFetchError} (h : readBoundedBody reply limit = .error e) :
    ∃ message, e = .fatal message := by
  have hchunks : ∀ (failure : Option String) (chunks : List Bytes) (body : Bytes),
    readChunks limit failure body chunks = .error e →
      ∃ message, e = .fatal message := by
    intro failure chunks
    induction chunks with
    | nil =>
      intro body h
      cases failure with
      | none => cases h
      | some error => exact ⟨error, (Except.error.inj h).symm⟩
    | cons chunk chunks ih =>
      intro body h
      rw [readChunks] at h
      split at h
      · exact ⟨_, (Except.error.inj h).symm⟩
      · split at h
        · exact ⟨_, (Except.error.inj h).symm⟩
        · exact ih _ h
  unfold readBoundedBody at h
  split at h
  · exact ⟨_, (Except.error.inj h).symm⟩
  · exact hchunks _ _ _ h

/-- A resource is missing for the client when the response is marked. -/
theorem marked_of_fetch {path : Bytes} {send : PeerSend} (marker : InternalProviderNegative)
    (h : fetchProviderPath env path send = .error marker.error) : ∃ reply, send = .answered reply ∧
      reply.Marked marker.status := by
  cases send with
  | failed retryable error => cases retryable <;> cases marker <;> cases h
  | answered reply =>
    refine ⟨reply, rfl, ?_⟩
    rw [fetchProviderPath] at h
    split at h
    · rename_i hnegative
      cases marker with
      | notFound => exact marked_of_authoritative hnegative
      | gone => cases h
    · rename_i hnegative
      cases marker with
      | notFound => cases h
      | gone => exact marked_of_authoritative hnegative
    · extract_lets status at h
      split at h
      · cases marker <;> cases h
      · split at h
        · cases marker <;> cases h
        · split at h
          · cases marker <;> cases h
          · cases hread : readBoundedBody reply (providerBodyLimit path) with
            | ok bytes =>
              rw [hread] at h
              cases h
            | error error =>
              rw [hread] at h
              obtain ⟨message, rfl⟩ := readBoundedBody_error hread
              cases marker <;> cases h

variable {isSelf : Peer → Bool} {send : Peer → PeerSend} {e : HttpError}

/-- A route that ends in a missing resource has a marked response on it. -/
theorem marked_of_routed {candidates : List ScoredPeer} (h : routeResource env resource isSelf send candidates = .error e) :
    ∃ candidate ∈ candidates, ∃ reply, send candidate.peer = .answered reply ∧ reply.Marked e.status := by
  induction candidates with
  | nil => cases h
  | cons candidate candidates ih =>
    rw [routeResource, routeProviderCandidates] at h
    split at h
    · cases h
    · split at h
      · unfold routePeerResource at h
        simp only at h
        split at h <;> cases h
      · rename_i hfetch
        cases h
        exact ⟨candidate, List.mem_cons_self, marked_of_fetch .notFound hfetch⟩
      · rename_i hfetch
        cases h
        exact ⟨candidate, List.mem_cons_self, marked_of_fetch .gone hfetch⟩
      · split at h
        · obtain ⟨other, hmem, hreply⟩ := ih h
          exact ⟨other, List.mem_cons_of_mem candidate hmem, hreply⟩
        · cases h

/-- What the client makes of an error that the owner answers with. -/
theorem fetchProviderPath_error (env : WireEnv) (resource : ResourceName)
    (he : e.status = marker.status) (hreply : (internalProviderFetchError e).Delivers reply) :
    fetchProviderPath env resource.internalPath (.answered reply) = .error marker.error := by
  have hpath : (utf8 "/_internal/provider/").isPrefixOf resource.internalPath = true := by
    cases resource <;> rfl
  have hresponse : internalProviderFetchError e =
      { errorResponse e with headers := (errorResponse e).headers.insert providerNegativeHeader (utf8 marker.asStr) } := by
    unfold internalProviderFetchError
    cases marker with
    | notFound => exact if_pos he
    | gone =>
      have hne : e.status ≠ 404 := fun h => by
        rw [he] at h
        cases h
      rw [if_neg hne]
      exact if_pos he
  have hmarker : reply.headers.getStr providerNegativeHeader = some marker.asStr.toList := by
    rw [hreply.headers, hresponse, HeaderMap.getStr_received_insert_self]
    cases marker <;> decide
  have hstatus : reply.status = marker.status := by
    rw [hreply.status, hresponse]
    exact he
  have hnegative : authoritativeProviderNegative resource.internalPath reply.status reply.headers = some marker := by
    rw [authoritativeProviderNegative, hpath, hmarker, hstatus]
    cases marker <;> rfl
  rw [fetchProviderPath, hnegative]
  cases marker <;> rfl

/-! ## The route -/

/-- The route reaches the owner first, and the client receives what the owner answers with. -/
def Reaches (isSelf : Peer → Bool) (send : Peer → PeerSend) (candidates : List ScoredPeer) (response : HttpResponse) : Prop :=
  ∃ owner rest reply, candidates = owner :: rest ∧ isSelf owner.peer = false ∧ send owner.peer = .answered reply ∧
    response.Delivers reply

theorem routeResource_ok {owner : ScoredPeer}
    {rest : List ScoredPeer} (hself : isSelf owner.peer = false) {answer : ProviderFetchResponse}
    (hfetch : fetchProviderPath env resource.internalPath (send owner.peer) = .ok answer) :
    routeResource env resource isSelf send (owner :: rest) = routePeerResource env (some (.resource answer)) := by
  rw [routeResource, routeProviderCandidates, hself, hfetch]
  rfl

/-- A marked answer of the owner is the outcome of the route. -/
theorem routeResource_missing (he : e.status = marker.status) {candidates : List ScoredPeer}
    (hreach : Reaches isSelf send candidates (internalProviderFetchError e)) :
    ∃ message, routeResource env resource isSelf send candidates = .error ⟨e.status, message⟩ := by
  obtain ⟨owner, rest, reply, rfl, hself, hsend, hreply⟩ := hreach
  have hfetch := fetchProviderPath_error env resource he hreply
  rw [routeResource, routeProviderCandidates, hself, hsend, hfetch, he]
  cases marker with
  | notFound => exact ⟨_, rfl⟩
  | gone => exact ⟨_, rfl⟩

theorem not_marked_of_status (h404 : e.status ≠ 404) (h410 : e.status ≠ 410)
    (hreply : (internalProviderFetchError e).Delivers reply) (status : Nat) : ¬reply.Marked status := by
  rintro ⟨hstatus, hmarked⟩
  have heq : reply.status = e.status := by
    rw [hreply.status, internalProviderFetchError, if_neg h404, if_neg h410]
    rfl
  rcases hmarked with ⟨rfl, -⟩ | ⟨rfl, -⟩
  · exact h404 (heq.symm.trans hstatus)
  · exact h410 (heq.symm.trans hstatus)

end Biei.Ishikari
