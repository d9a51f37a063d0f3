import Biei.Filesource.UrlPolicy

/-! # Requests stay where they may go -/

namespace Biei.Filesource

/-! ## Embedded addresses -/

namespace Ipv4Addr

def high (address : Ipv4Addr) : BitVec 16 := address.a ++ address.b

def low (address : Ipv4Addr) : BitVec 16 := address.c ++ address.d

/-- `::ffff:a.b.c.d`. -/
def mapped (address : Ipv4Addr) : Ipv6Addr := ⟨#v[0, 0, 0, 0, 0, 0xffff, address.high, address.low]⟩

/-- `::a.b.c.d`. -/
def compatible (address : Ipv4Addr) : Ipv6Addr := ⟨#v[0, 0, 0, 0, 0, 0, address.high, address.low]⟩

/-- `64:ff9b::a.b.c.d`. -/
def nat64 (address : Ipv4Addr) : Ipv6Addr := ⟨#v[0x0064, 0xff9b, 0, 0, 0, 0, address.high, address.low]⟩

theorem setWidth_append_shiftRight (x y : BitVec 8) : ((x ++ y) >>> 8).setWidth 8 = x := by
  ext i hi
  rw [BitVec.getElem_setWidth, BitVec.getLsbD_ushiftRight, BitVec.getLsbD_append]
  simp [hi, show ¬ 8 + i < 8 by omega]

theorem setWidth_append (x y : BitVec 8) : (x ++ y).setWidth 8 = y := by
  ext i hi
  rw [BitVec.getElem_setWidth, BitVec.getLsbD_append]
  simp [hi]

theorem ofSegments_high_low (address : Ipv4Addr) : ofSegments address.high address.low = address := by
  obtain ⟨a, b, c, d⟩ := address
  unfold ofSegments high low
  rw [setWidth_append_shiftRight, setWidth_append, setWidth_append_shiftRight, setWidth_append]

end Ipv4Addr

/-- An address that embeds one of IPv4 is forbidden where that address is. -/
theorem isForbiddenAddress_embedded (embedded : Ipv4Addr) (address : Ipv6Addr)
    (h : address = embedded.mapped ∨ address = embedded.compatible ∨ address = embedded.nat64) :
    isForbiddenAddress (.v6 address) = isForbiddenAddress (.v4 embedded) := by
  rcases h with rfl | rfl | rfl
  · simp [isForbiddenAddress, isForbiddenIpv6, Ipv6Addr.toIpv4, Ipv6Addr.leads, Ipv4Addr.mapped, Ipv4Addr.ofSegments_high_low]
  · simp [isForbiddenAddress, isForbiddenIpv6, Ipv6Addr.toIpv4, Ipv6Addr.leads, Ipv4Addr.compatible, Ipv4Addr.ofSegments_high_low]
  · simp [isForbiddenAddress, isForbiddenIpv6, Ipv6Addr.toIpv4, Ipv6Addr.leads, Ipv4Addr.nat64, Ipv4Addr.ofSegments_high_low]

/-- `64:ff9b::169.254.169.254`. -/
example : isForbiddenAddress (.v6 (Ipv4Addr.nat64 ⟨169, 254, 169, 254⟩)) = true := by decide

/-- A segment under a mask of its first bits is these bits. -/
theorem and_eq_of_shiftRight_eq {x y mask : BitVec 16} (n : Nat) (hmask : ∀ x : BitVec 16, x &&& mask = (x >>> n) <<< n)
    (hy : y &&& mask = y) (h : x >>> n = y >>> n) : x &&& mask = y := by
  rw [hmask, h, ← hmask, hy]

theorem and_fe00 (x : BitVec 16) : x &&& 0xfe00 = (x >>> 9) <<< 9 := by
  ext i hi
  interval_cases i <;> simp

theorem and_ffc0 (x : BitVec 16) : x &&& 0xffc0 = (x >>> 6) <<< 6 := by
  ext i hi
  interval_cases i <;> simp

theorem isForbiddenAddress_of_isConfined {address : Ipv6Addr} (h : address.IsConfined) :
    isForbiddenAddress (.v6 address) = true := by
  obtain ⟨hzero, hprefix⟩ := h.embeds_nothing
  have hnone : address.toIpv4 = none := by
    simp only [Ipv6Addr.toIpv4, Ipv6Addr.leads, address.toList_segments]
    simp only [List.length_cons, List.length_nil, List.take_succ_cons, List.cons.injEq, decide_eq_true_eq]
    exact if_neg fun hembedded => hzero hembedded.1.1
  have hnat : address.leads [0x0064, 0xff9b, 0, 0, 0, 0] = false := by
    simp only [Ipv6Addr.leads, address.toList_segments]
    simp only [List.length_cons, List.length_nil, List.take_succ_cons, List.cons.injEq, decide_eq_false_iff_not]
    tauto
  have hrange : address.isUniqueLocal = true ∨ address.isUnicastLinkLocal = true ∨ address.leads [0x0064, 0xff9b, 0x0001] = true ∨
      address.leads [0x2002] = true ∨ address.leads [0x2001, 0] = true := by
    rcases h with h | h | h | h | h
    · exact Or.inr (Or.inr (Or.inr (Or.inl (by simpa [Ipv6Addr.leads, address.toList_segments] using show _ = _ from h))))
    · exact Or.inr (Or.inr (Or.inr (Or.inr (by simpa [Ipv6Addr.leads, address.toList_segments] using show _ ∧ _ from h))))
    · exact Or.inr (Or.inr (Or.inl (by simpa [Ipv6Addr.leads, address.toList_segments] using show _ ∧ _ ∧ _ from h)))
    · exact Or.inl (decide_eq_true (and_eq_of_shiftRight_eq 9 and_fe00 (by decide) h))
    · exact Or.inr (Or.inl (decide_eq_true (and_eq_of_shiftRight_eq 6 and_ffc0 (by decide) h)))
  unfold isForbiddenAddress isForbiddenIpv6
  simp only [hnone, hnat, Bool.or_eq_true, Bool.false_eq_true, if_false]
  tauto

/-! ## Hosts -/

namespace ResourceUrlPolicy

/-- A character that becomes a dot in lower case is one. -/
theorem toLower_eq_dot (c : Char) : (Char.toLower c == '.') = (c == '.') := by
  by_cases hupper : c.isUpper
  · have hne : c ≠ '.' := by
      rintro rfl
      exact absurd hupper (by decide)
    have hlower : Char.toLower c ≠ '.' := by
      intro heq
      have halpha : (Char.toLower c).isAlpha = c.isAlpha := Char.isAlpha_toLower_eq_isAlpha c
      have hself : c.isAlpha = true := by rw [Char.isAlpha, hupper, Bool.true_or]
      rw [heq, hself] at halpha
      exact absurd halpha (by decide)
    rw [beq_eq_false_iff_ne.mpr hlower, beq_eq_false_iff_ne.mpr hne]
  · rw [Char.toLower_eq_of_not_isUpper hupper]

theorem trimEndDots_map_toLower (text : List Char) : trimEndDots (text.map Char.toLower) = (trimEndDots text).map
    Char.toLower := by
  have hdot : ((· == '.') ∘ Char.toLower) = fun c : Char => c == '.' := funext toLower_eq_dot
  rw [trimEndDots, ← List.map_reverse, List.dropWhile_map, hdot, ← List.map_reverse]
  rfl

/-- What is canonical stays as it is. -/
theorem canonicalHost_idem (host : List Char) : canonicalHost (canonicalHost host) = canonicalHost host := by
  have hdots : trimEndDots (trimEndDots host) = trimEndDots host := List.rdropWhile_idempotent _ _
  have hlower : (Char.toLower ∘ Char.toLower) = Char.toLower := funext Char.toLower_toLower_eq_toLower
  rw [canonicalHost, canonicalHost, trimEndDots_map_toLower, hdots, List.map_map, hlower]

theorem allowsPrivateHost_canonicalHost (policy : ResourceUrlPolicy) (host : List Char) :
    policy.allowsPrivateHost (canonicalHost host) = policy.allowsPrivateHost host := by
  rw [allowsPrivateHost, canonicalHost_idem, allowsPrivateHost]

/-- A pattern with a wildcard names the hosts below its domain. -/
theorem patternMatches_wildcard (rest host : List Char) :
    patternMatches ('*' :: '.' :: rest) host = true ↔ '.' :: rest <:+ host ∧ host ≠ rest := by
  show (host != rest && ('.' :: rest).isSuffixOf host) = true ↔ _
  rw [Bool.and_eq_true, bne_iff_ne, List.isSuffixOf_iff_suffix, and_comm]

theorem allowsPrivateHost_new_iff (patterns : List (List Char)) (host : List Char) :
    (new patterns).allowsPrivateHost host = true ↔
      ∃ pattern ∈ patterns, canonicalHost (trim pattern) ≠ [] ∧
        patternMatches (canonicalHost (trim pattern)) (canonicalHost host) = true := by
  simp [new, allowsPrivateHost]

/-- A host is allowed where one of the configured patterns allows it. -/
theorem allowsPrivateHost_new (patterns : List (List Char)) (host : List Char) :
    (new patterns).allowsPrivateHost host = true ↔ ∃ pattern ∈ patterns, (new [pattern]).allowsPrivateHost host = true := by
  simp only [allowsPrivateHost_new_iff, List.mem_singleton, exists_eq_left]

/-- The host of a URL as the policy reads it. -/
def requestedHost (env : UrlEnv) : Host → List Char
  | .domain name => name
  | .ipv4 address => hostLabel env (.ipv4 address)
  | .ipv6 address => hostLabel env (.ipv6 address)

/-- An accepted URL is connected to public addresses, unless its host is a private one that is allowed. -/
theorem connectsTo_of_permits {env : UrlEnv} {policy : ResourceUrlPolicy} {url : Url}
    (h : policy.permitsUrlWithoutDns env url = true)
    {lookup : List Char → Option (List IpAddr)} {address : IpAddr} (hconnect : ConnectsTo policy lookup url address) :
    isForbiddenAddress address = false ∨ ∃ host, url.host = some host ∧
      policy.allowsPrivateHost (requestedHost env host) = true := by
  unfold permitsUrlWithoutDns at h
  unfold ConnectsTo at hconnect
  rw [ite_eq_iff] at h
  obtain ⟨-, h⟩ | ⟨-, h⟩ := h
  · nomatch h
  cases hhost : url.host with
  | none =>
    rw [hhost] at h
    nomatch h
  | some host =>
    rw [hhost] at h hconnect
    cases host with
    | domain name =>
      obtain ⟨addresses, hresolve, hmem⟩ := hconnect
      unfold FilteringResolver.resolve at hresolve
      split at hresolve
      · nomatch hresolve
      · extract_lets found at hresolve
        split at hresolve
        · nomatch hresolve
        · have hkept := (List.mem_filter.mp (Except.ok.inj hresolve ▸ hmem)).2
          rw [Bool.or_eq_true, allowsPrivateHost_canonicalHost, Bool.not_eq_true'] at hkept
          exact hkept.symm.imp id fun hallow => ⟨_, rfl, hallow⟩
    | ipv4 literal =>
      cases hconnect
      rw [Bool.or_eq_true, Bool.not_eq_true'] at h
      exact h.imp id fun hallow => ⟨_, rfl, hallow⟩
    | ipv6 literal =>
      cases hconnect
      rw [Bool.or_eq_true, Bool.not_eq_true'] at h
      exact h.imp id fun hallow => ⟨_, rfl, hallow⟩

end ResourceUrlPolicy

/-! ## Redirects -/

section Redirects

variable {env : UrlEnv} {policy : ResourceUrlPolicy} {initial : Url} {chain : List Url} {target : Url}

/-- A redirect is followed to accepted URLs, and to the origin of the first URL that carried a token. -/
theorem follow_of_redirectAction {previous : List Url} (h : redirectAction env policy previous target = .follow) :
    policy.permitsUrlWithoutDns env target = true ∧ credentialedRedirectStaysOnOrigin env previous target = true := by
  unfold redirectAction at h
  split at h
  · nomatch h
  · split at h
    · nomatch h
    · rename_i horigin
      split at h
      · rename_i hpermits
        exact ⟨hpermits, by simpa using horigin⟩
      · nomatch h

theorem step_redirects {previous next : List Url} (h : (redirects env policy initial).step previous target = some next) :
    next = previous ++ [target] ∧ policy.permitsUrlWithoutDns env target = true ∧
      credentialedRedirectStaysOnOrigin env previous target = true := by
  simp only [redirects, Option.ite_none_right_eq_some, Option.some.injEq] at h
  exact ⟨h.2.symm, follow_of_redirectAction h.1⟩

/-- Every URL requested was accepted. -/
theorem permits_of_reachable (hinitial : policy.permitsUrlWithoutDns env initial = true)
    (h : (redirects env policy initial).Reachable chain) : ∀ url ∈ chain, policy.permitsUrlWithoutDns env url = true := by
  refine h.invariant (I := fun chain => ∀ url ∈ chain, policy.permitsUrlWithoutDns env url = true) ?_ ?_
  · intro url hurl
    rw [List.mem_singleton.mp hurl]
    exact hinitial
  · intro previous target next hprevious hstep url hurl
    obtain ⟨rfl, htarget, -⟩ := step_redirects hstep
    rcases List.mem_append.mp hurl with hurl | hurl
    · exact hprevious url hurl
    · rw [List.mem_singleton.mp hurl]
      exact htarget

/-- A URL is requested on the origin of each earlier one that carried a token. -/
def KeepsOrigin (env : UrlEnv) (earlier later : Url) : Prop := earlier.credentialed env = true →
    later.origin env = earlier.origin env

/-- The target has the origin of every earlier URL that carried a token: of the first by the check, and of the others because they
have it too. -/
theorem keepsOrigin_target {previous : List Url} (hprevious : previous.Pairwise (KeepsOrigin env))
    (h : credentialedRedirectStaysOnOrigin env previous target = true) : ∀ url ∈ previous, KeepsOrigin env url target := by
  intro url hurl hcredentialed
  unfold credentialedRedirectStaysOnOrigin at h
  split at h
  · rename_i hnone
    exact absurd hcredentialed (List.find?_eq_none.mp hnone url hurl)
  · rename_i first hfirst
    obtain ⟨hcarries, before, after, rfl, hbefore⟩ := List.find?_eq_some_iff_append.mp hfirst
    have htarget : first.origin env = target.origin env := beq_iff_eq.mp h
    rcases List.mem_append.mp hurl with hurl | hurl
    · exact absurd (hbefore url hurl) (by simp [hcredentialed])
    · rcases List.mem_cons.mp hurl with rfl | hurl
      · exact htarget.symm
      · have hsame := List.rel_of_pairwise_cons (List.pairwise_append.mp hprevious).2.1 hurl
        rw [hsame hcarries, htarget]

theorem pairwise_keepsOrigin_of_reachable (h : (redirects env policy initial).Reachable chain) :
    chain.Pairwise (KeepsOrigin env) := by
  refine h.invariant (I := fun chain => chain.Pairwise (KeepsOrigin env)) (List.pairwise_singleton _ _) ?_
  intro previous target next hprevious hstep
  obtain ⟨rfl, -, horigin⟩ := step_redirects hstep
  refine List.pairwise_append.mpr ⟨hprevious, List.pairwise_singleton _ _, fun url hurl other hother => ?_⟩
  rw [List.mem_singleton.mp hother]
  exact keepsOrigin_target hprevious horigin url hurl

end Redirects

/-- Requests are confined: whatever is connected to on the way is public or on a configured host, the forms of IPv6 that lead
elsewhere are judged by where they lead, a wildcard names what is below its domain, and a token stays on its origin. -/
theorem resource_requests_confined (env : UrlEnv) (patterns : List (List Char)) (initial : Url)
    (hinitial : (ResourceUrlPolicy.new patterns).permitsUrlWithoutDns env initial = true) :
    (∀ chain, (redirects env (.new patterns) initial).Reachable chain →
      (∀ url ∈ chain, ∀ lookup address, ConnectsTo (.new patterns) lookup url address →
        isForbiddenAddress address = false ∨ ∃ host, url.host = some host ∧
          ∃ pattern ∈ patterns, (ResourceUrlPolicy.new [pattern]).allowsPrivateHost (ResourceUrlPolicy.requestedHost env host) =
            true) ∧
      chain.Pairwise fun earlier later => earlier.credentialed env = true → later.origin env = earlier.origin env) ∧
    (∀ (embedded : Ipv4Addr) (address : Ipv6Addr),
      address = embedded.mapped ∨ address = embedded.compatible ∨ address = embedded.nat64 →
      isForbiddenAddress (.v6 address) = isForbiddenAddress (.v4 embedded)) ∧
    (∀ address : Ipv6Addr, address.IsSixToFour ∨ address.IsTeredo ∨ address.IsLocalNat64 ∨ address.InUniqueLocal ∨
      address.InLinkLocal →
      isForbiddenAddress (.v6 address) = true) ∧
    ∀ pattern rest host, canonicalHost (trim pattern) = '*' :: '.' :: rest →
      ((ResourceUrlPolicy.new [pattern]).allowsPrivateHost host = true ↔
        '.' :: rest <:+ canonicalHost host ∧ canonicalHost host ≠ rest) := by
  refine ⟨fun chain hchain => ⟨fun url hurl lookup address hconnect => ?_, pairwise_keepsOrigin_of_reachable hchain⟩,
    isForbiddenAddress_embedded, fun address h => isForbiddenAddress_of_isConfined h, fun pattern rest host hpattern => ?_⟩
  · have hpermits := permits_of_reachable hinitial hchain url hurl
    refine (ResourceUrlPolicy.connectsTo_of_permits hpermits hconnect).imp id fun ⟨host, hhost, hallow⟩ => ⟨host, hhost, ?_⟩
    exact (ResourceUrlPolicy.allowsPrivateHost_new patterns _).mp hallow
  · rw [ResourceUrlPolicy.allowsPrivateHost_new_iff]
    simp only [List.mem_singleton, exists_eq_left, hpattern, ResourceUrlPolicy.patternMatches_wildcard]
    simp

/-- A request to a loopback host that is configured. -/
theorem resource_requests_confined_loopback :
    let env : UrlEnv := ⟨fun _ => "127.0.0.1".toList, fun _ => [], fun _ => .opaqueOrigin 0⟩
    let url : Url := ⟨"http".toList, some (.ipv4 ⟨127, 0, 0, 1⟩), some 80, none⟩
    isForbiddenAddress (.v4 ⟨127, 0, 0, 1⟩) = false ∨ ∃ host, url.host = some host ∧ ∃ pattern ∈ ["127.0.0.1".toList],
      (ResourceUrlPolicy.new [pattern]).allowsPrivateHost (ResourceUrlPolicy.requestedHost env host) = true :=
  ((resource_requests_confined ⟨fun _ => "127.0.0.1".toList, fun _ => [], fun _ => .opaqueOrigin 0⟩ ["127.0.0.1".toList]
    ⟨"http".toList, some (.ipv4 ⟨127, 0, 0, 1⟩), some 80, none⟩ (by decide +kernel)).1 _ Machine.ReachedBy.init).1 _
      (List.mem_singleton_self _) (fun _ => none) (.v4 ⟨127, 0, 0, 1⟩) rfl

end Biei.Filesource
