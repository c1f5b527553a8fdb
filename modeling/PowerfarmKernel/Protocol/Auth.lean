import PowerfarmKernel.Service.Runtime

/-!
# Who presents a request

With OAuth enabled the protocol takes the principal of a request from the token the request
bears (`protocol/mcp/auth.py`). The signature of a token, and its registered claims, are
checked by a library, which enters as `PowerfarmKernel.Jwt`; what is asked of the subject
and of the client is asked here (`PowerfarmKernel.verifyToken`).

A principal therefore has the configured issuer, a subject the issuer named, and a client
that the token presents and the configuration does not exclude
(`PowerfarmKernel.Vouched`). A token without a client is nobody's.
-/

namespace PowerfarmKernel

/-! ### Tokens -/

/-- How tokens are verified. -/
structure JWTSettings where
  issuer : String
  audience : String
  jwksUrl : String
  algorithms : List String
  resource : String
  clients : Finset String

/-- The claims of a token: a JSON object. -/
abbrev Claims := Dict String CanonValue

/-- **A token that was accepted**, as tools find it. -/
structure AccessToken where
  token : String
  clientId : String
  scopes : List String
  expiresAt : Option ℤ
  resource : Option String
  subject : Option String
  claims : Option Claims

/-- What checks the tokens of a server. -/
abbrev TokenVerifier := String → Except Raised (Option AccessToken)

/-- Whether Python takes a JSON value for true. -/
def CanonValue.truthy : CanonValue → Bool
  | .null => false
  | .bool b => b
  | .int n => n ≠ 0
  | .float bits => bits.toNat % 2 ^ 63 ≠ 0
  | .str s => s ≠ ""
  | .list items => !items.isEmpty
  | .dict items => !items.isEmpty

/-- **The library that decodes tokens**, and Python's own conversion to an integer. -/
structure Jwt where
  /-- The key is looked up in the published key set, and the token decoded with it under the
  algorithms, the audience and the issuer of the settings, the claims `exp`, `iss`, `sub` and
  `aud` required. Any `PyJWTError` is `none`. -/
  decode : JWTSettings → String → Option Claims
  /-- `int`. -/
  int : CanonValue → Except Raised ℤ

/-- What the library documents of the claims it returns. -/
structure Jwt.Lawful (L : Jwt) : Prop where
  issuer : ∀ settings token claims, L.decode settings token = some claims →
    claims.get? "iss" = some (.str settings.issuer)
  audience : ∀ settings token claims, L.decode settings token = some claims →
    claims.get? "aud" = some (.str settings.audience) ∨
      ∃ items, claims.get? "aud" = some (.list items) ∧ .str settings.audience ∈ items
  expiration : ∀ settings token claims, L.decode settings token = some claims →
    ∃ v n, claims.get? "exp" = some v ∧ L.int v = .ok n

/-- The client a token presents: `client_id`, or else `azp`. -/
def presentedClient (claims : Claims) : Option CanonValue :=
  match claims.get? "client_id" with
  | some v => if v.truthy then some v else claims.get? "azp"
  | none => claims.get? "azp"

/-- **`SupabaseJWTVerifier.verify_token`.** -/
def verifyToken (L : Jwt) (settings : JWTSettings) : TokenVerifier := fun token =>
  match L.decode settings token with
  | none => .ok none
  | some claims =>
      match claims.get? "sub", presentedClient claims with
      | some (.str subject), some (.str clientId) =>
          if subject = "" then .ok none
          -- A client is presented or absent; it is never derived.
          else if clientId = "" then .ok none
          else if settings.clients ≠ ∅ ∧ clientId ∉ settings.clients then .ok none
          else match claims.get? "exp" with
            | none => .error ⟨.keyError, "exp"⟩
            | some exp =>
                match L.int exp with
                | .error e => .error e
                | .ok expiresAt => .ok (some
                    { token, clientId, scopes := [], expiresAt := some expiresAt
                      resource := some settings.resource, subject := some subject
                      claims := some claims })
      | _, _ => .ok none

/-- `current_principal`, given the token in the context of a request. -/
def currentPrincipal (token : Option AccessToken) : Option RequestPrincipal :=
  match token with
  | none => none
  | some token =>
      match (token.claims.getD Dict.empty).get? "iss", token.subject with
      | some (.str issuer), some subject => some ⟨issuer, subject, token.clientId⟩
      | _, _ => none

/-! ### The configuration -/

/-- What keeps a server from being built. -/
inductive StartupError where
  /-- `RuntimeError`. -/
  | runtimeError (text : String)
  /-- What `AnyHttpUrl` raises of this text. -/
  | invalidUrl (url : String)

/-- What the framework is told about the authorization server. -/
structure AuthSettings where
  issuerUrl : String
  resourceServerUrl : String
  requiredScopes : List String

/-- `_enabled`: of the characters `str.lower` changes, only ASCII letters become letters of
these words. -/
def enabled (value : Option String) : Bool :=
  value.any fun value =>
    String.ofList (value.toList.map Char.toLower) ∈ ["1", "true", "yes", "on"]

/-- The settings of the verifier, for an issuer and a resource. -/
def jwtSettings (env : Environment) (issuer resource : String) : JWTSettings where
  issuer := issuer
  -- The audience is the resource a token was minted for.
  audience := (env "POWERFARM_OAUTH_AUDIENCE").getD resource
  jwksUrl := (env "POWERFARM_OAUTH_JWKS_URL").getD
    (String.ofList (issuer.toList.rdropWhile (· = '/')) ++ "/.well-known/jwks.json")
  algorithms := separated ((env "POWERFARM_OAUTH_ALGORITHMS").getD "ES256,RS256")
  resource := resource
  clients := (separated ((env "POWERFARM_OAUTH_CLIENTS").getD "")).toFinset

/-- `AnyHttpUrl`, of a library that reads URLs. -/
def requireUrl (isHttpUrl : String → Bool) (url : String) : Except StartupError String :=
  if isHttpUrl url then .ok url else .error (.invalidUrl url)

/-- **`auth_from_env`**: nothing where OAuth is not required, and else an issuer and a
resource must be configured. -/
def authFromEnv (isHttpUrl : String → Bool) (L : Jwt) (env : Environment) :
    Except StartupError (Option AuthSettings × Option TokenVerifier × Bool) :=
  if enabled (env "POWERFARM_AUTH_REQUIRED") = false then .ok (none, none, false)
  else
    let issuer := (env "POWERFARM_OAUTH_ISSUER").getD ""
    let resource := (env "POWERFARM_MCP_RESOURCE_URL").getD ""
    if issuer = "" ∨ resource = "" then
      .error (.runtimeError ("POWERFARM_OAUTH_ISSUER and POWERFARM_MCP_RESOURCE_URL are required "
        ++ "when OAuth is enabled"))
    else do
      let issuerUrl ← requireUrl isHttpUrl issuer
      let resourceServerUrl ← requireUrl isHttpUrl resource
      return (some { issuerUrl, resourceServerUrl, requiredScopes := [] },
        some (verifyToken L (jwtSettings env issuer resource)), true)

/-! ### What an accepted token proves -/

/-- **A token vouches for a principal** under some settings: it was decoded, the issuer is
the configured one, and the client is presented, and one of the configured clients, if any
are. -/
structure Vouched (L : Jwt) (settings : JWTSettings) (token : String) (p : RequestPrincipal) :
    Prop where
  issuer : p.issuer = settings.issuer
  subject : p.subject ≠ ""
  client : p.clientId ≠ ""
  declared : settings.clients = ∅ ∨ p.clientId ∈ settings.clients
  claims : ∃ claims, L.decode settings token = some claims ∧
    claims.get? "sub" = some (.str p.subject) ∧
    (claims.get? "client_id" = some (.str p.clientId) ∨
      (∀ v, claims.get? "client_id" = some v → v.truthy = false) ∧
        claims.get? "azp" = some (.str p.clientId))

variable {L : Jwt} {settings : JWTSettings} {token : String} {t : AccessToken}

theorem presentedClient_eq_some {claims : Claims} {v : CanonValue}
    (h : presentedClient claims = some v) :
    claims.get? "client_id" = some v ∨
      (∀ w, claims.get? "client_id" = some w → w.truthy = false) ∧
        claims.get? "azp" = some v := by
  rw [presentedClient] at h
  split at h
  · rename_i w hw
    split at h
    · cases h
      exact Or.inl hw
    · rename_i hfalsy
      refine Or.inr ⟨fun w' hw' => ?_, h⟩
      rw [hw] at hw'
      cases hw'
      exact eq_false_of_ne_true hfalsy
  · rename_i hnone
    refine Or.inr ⟨fun w hw => ?_, h⟩
    rw [hnone] at hw
    cases hw

/-- **Verification does not raise**: what it reads of the claims the library has checked. -/
theorem exists_verifyToken (hL : L.Lawful) (settings : JWTSettings) (token : String) :
    ∃ found, verifyToken L settings token = .ok found := by
  rw [verifyToken]
  rcases hdecode : L.decode settings token with _ | claims
  · exact ⟨none, rfl⟩
  obtain ⟨v, n, hexp, hint⟩ := hL.expiration settings token claims hdecode
  dsimp only
  rw [hexp]
  dsimp only
  rw [hint]
  split
  · split_ifs
    · exact ⟨none, rfl⟩
    · exact ⟨none, rfl⟩
    · exact ⟨none, rfl⟩
    · exact ⟨_, rfl⟩
  · exact ⟨none, rfl⟩

/-- **The principal of an accepted token** is one the token vouches for, and there is one. -/
theorem vouched_of_verifyToken (hL : L.Lawful) (h : verifyToken L settings token = .ok (some t)) :
    ∃ p, currentPrincipal (some t) = some p ∧ Vouched L settings token p := by
  rw [verifyToken] at h
  rcases hdecode : L.decode settings token with _ | claims
  · rw [hdecode] at h
    cases h
  rw [hdecode] at h
  dsimp only at h
  split at h
  · rename_i subject clientId hsubject hclient
    split_ifs at h with hempty hnobody hdeclared
    · cases h
    · cases h
    · cases h
    · rcases hexp : claims.get? "exp" with _ | exp
      · rw [hexp] at h
        cases h
      rw [hexp] at h
      dsimp only at h
      rcases hint : L.int exp with e | expiresAt
      · rw [hint] at h
        cases h
      rw [hint] at h
      cases h
      refine ⟨⟨settings.issuer, subject, clientId⟩, ?_, rfl, hempty, hnobody, ?_, claims, hdecode,
        hsubject, presentedClient_eq_some hclient⟩
      · rw [currentPrincipal]
        dsimp only [Option.getD_some]
        rw [hL.issuer settings token claims hdecode]
      · rw [not_and_or, not_not, not_not] at hdeclared
        exact hdeclared
  · cases h

theorem exists_of_getD_ne {value : Option String} (h : value.getD "" ≠ "") :
    ∃ v, value = some v := by
  rcases value with _ | v
  · exact absurd rfl h
  · exact ⟨v, rfl⟩

/-- **When OAuth is required**, an issuer and a resource are configured, and tokens are
verified under them. -/
theorem authFromEnv_required {isHttpUrl : String → Bool} {env : Environment}
    {auth : Option AuthSettings} {verifier : Option TokenVerifier} {required : Bool}
    (henabled : enabled (env "POWERFARM_AUTH_REQUIRED") = true)
    (h : authFromEnv isHttpUrl L env = .ok (auth, verifier, required)) :
    ∃ issuer resource, env "POWERFARM_OAUTH_ISSUER" = some issuer ∧ issuer ≠ "" ∧
      env "POWERFARM_MCP_RESOURCE_URL" = some resource ∧ auth.isSome ∧
      verifier = some (verifyToken L (jwtSettings env issuer resource)) ∧ required = true := by
  rw [authFromEnv, if_neg (ne_false_of_eq_true henabled)] at h
  dsimp only at h
  split at h
  · cases h
  rename_i hset
  obtain ⟨hissuer, hresource⟩ := not_or.mp hset
  obtain ⟨issuer, heq⟩ := exists_of_getD_ne hissuer
  obtain ⟨resource, heq'⟩ := exists_of_getD_ne hresource
  rw [heq, Option.getD_some] at h hissuer
  rw [heq', Option.getD_some] at h
  rw [requireUrl, requireUrl] at h
  split at h
  · split at h
    · cases h
      exact ⟨issuer, resource, heq, hissuer, heq', rfl, rfl, rfl⟩
    · cases h
  · cases h

end PowerfarmKernel
