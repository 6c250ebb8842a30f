import Firestone.Oci.References

/-!
# What a registry is told over plain HTTP

A registry on the `images.insecure_registries` list is reached over plain HTTP, every other one over HTTPS, and so are the
token realms that it may name.

* `Client.withHttp` — the list as a client keeps it.
* `resolve_https`, `fetchLayer_https` — a registry that is not on the list is never asked over plain HTTP.
* `resolve_congr`, `fetchLayer_congr` — a registry on the list is asked the same whatever credentials are stored.
* `credentials_kept` — both, and that Docker Hub is never on the list.

The URL library is a parameter of which only the schemes are used (`UrlLaws`).
-/

namespace Firestone.Oci.Registry

open Firestone.Lib Firestone.Oci.References

/-! ## The client -/

structure RegistryOptions where
  architecture : Arch
  insecureRegistries : List String

def validateRegistryHost (value : String) : Res Unit :=
  match checkRegistryHost value with
  | .ok () => .ok ()
  | .error detail => .error ((FirestoneError.new .invalidSpec s!"invalid registry host '{value}': {detail}").withHint
      "write a bare 'host' or 'host:port' entry such as 'localhost:5000'")

/-- Docker Hub, under each of its names. -/
def dockerHub : List String := ["docker.io", "index.docker.io", "registry-1.docker.io"]

/-- An entry of the list, in lowercase. -/
def insecureEntry (entry : String) : Res String :=
  match validateRegistryHost entry with
  | .error error => .error ((FirestoneError.new .invalidSpec s!"images.insecure_registries: {error.message}").withHint
      "write a bare 'host' or 'host:port' entry such as 'localhost:5000'")
  | .ok () =>
    let entry := toAsciiLowercase entry
    if entry ∈ dockerHub then
      .error ((FirestoneError.new .invalidSpec
        s!"images.insecure_registries: '{entry}' cannot be reached over plain HTTP").withHint
        "remove the Docker Hub entry; Docker Hub is always contacted over HTTPS")
    else .ok entry

/-- A client on an explicit transport, with the credentials that were loaded. -/
def Client.withHttp (options : RegistryOptions) (credentials : List (String × BasicCredential)) : Res Client := do
  let entries ← options.insecureRegistries.mapM insecureEntry
  return ⟨options.architecture, (entries.insertionSort (· ≤ ·)).dedup, credentials⟩

theorem insecureEntry_ok {entry entry' : String} (h : insecureEntry entry = .ok entry') : entry' ∉ dockerHub := by
  unfold insecureEntry at h
  split at h
  · cases h
  · simp only at h
    split at h
    · cases h
    · rename_i hnot
      cases h
      exact hnot

theorem insecureEntries_ok : ∀ {entries entries' : List String}, entries.mapM insecureEntry = .ok entries' →
    ∀ e ∈ entries', e ∉ dockerHub
  | [], entries', h => by
    cases h
    intro e he
    cases he
  | entry :: entries, entries', h => by
    rw [List.mapM_cons] at h
    obtain ⟨e', he', h⟩ := Res.bind_ok h
    obtain ⟨es', hes', h⟩ := Res.bind_ok h
    cases h
    intro e he
    rcases List.mem_cons.mp he with rfl | he
    · exact insecureEntry_ok he'
    · exact insecureEntries_ok hes' e he

/-- Docker Hub is not on the list. -/
theorem isInsecure_dockerHub {options : RegistryOptions} {credentials : List (String × BasicCredential)} {client : Client}
    (h : Client.withHttp options credentials = .ok client) {registry : String} (hr : registry ∈ dockerHub) :
    isInsecure client registry = false := by
  obtain ⟨entries, hentries, h⟩ := Res.bind_ok h
  cases h
  refine Bool.eq_false_iff.mpr fun hin => ?_
  simp only [isInsecure, List.contains_iff_mem, List.mem_dedup, List.mem_insertionSort] at hin
  exact insecureEntries_ok hentries registry hin hr

/-! ## Schemes -/

/-- What the client relies on of the URL library: a parsed URL has the scheme it was written with, and a query leaves it. -/
structure UrlLaws (env : Env) : Prop where
  https : ∀ rest url, env.parseUrl ("https://" ++ rest) = some url → url.scheme = "https"
  http : ∀ rest url, env.parseUrl ("http://" ++ rest) = some url → url.scheme = "http"
  query : ∀ url name value, (env.appendPair url name value).scheme = url.scheme

section client

variable {env : Env} {client : Client} {reference : OciReference}

theorem endpointUrl_scheme (laws : UrlLaws env) {registry path : String} {url : Url}
    (h : endpointUrl env client registry path = .ok url) :
    url.scheme = if isInsecure client registry then "http" else "https" := by
  unfold endpointUrl at h
  split at h
  · rename_i hparse
    cases h
    cases hin : isInsecure client registry with
    | true =>
      have htext : endpointText client registry path = "http://" ++ (registryEndpointHost registry ++ path) := by
        simp only [endpointText, hin]
        rfl
      rw [htext] at hparse
      exact laws.http _ _ hparse
    | false =>
      have htext : endpointText client registry path = "https://" ++ (registryEndpointHost registry ++ path) := by
        simp only [endpointText, hin]
        rfl
      rw [htext] at hparse
      exact laws.https _ _ hparse
  · cases h

/-- The realm of a registry that is not on the list is reached over HTTPS. -/
theorem tokenUrl_https (laws : UrlLaws env) (hsecure : isInsecure client reference.registry = false)
    {challenge : AuthChallenge} {url : Url} (h : tokenUrl env client reference challenge = .ok url) :
    url.scheme = "https" := by
  unfold tokenUrl at h
  split at h
  · cases h
  split at h
  · cases h
  rename_i realm hrealm
  split at h
  · rename_i hallowed
    have hscheme : realm.scheme = "https" := by
      unfold tokenRealmAllowed at hallowed
      split at hallowed
      · assumption
      · rw [hsecure] at hallowed
        split at hallowed <;> cases hallowed
    cases h
    rw [laws.query]
    split
    · rw [laws.query, hscheme]
    · exact hscheme
  · cases h

/-! ## Registries that are not on the list -/

/-- The request goes over HTTPS. -/
def Https (r : Request) : Prop := r.url.scheme = "https"

theorem request_https (laws : UrlLaws env) (hsecure : isInsecure client reference.registry = false) {url : Url}
    (hurl : url.scheme = "https") (accept : Option String) :
    Talk.Sends Https (request env client reference url accept) := by
  unfold request fetchToken
  refine Talk.Sends.bind (Talk.Sends.send hurl) fun response => ?_
  split
  · exact Talk.Sends.lift _
  refine Talk.Sends.bind (Talk.Sends.lift _) fun challenge => ?_
  refine Talk.Sends.bind (Talk.Sends.lift_bind fun realm hrealm => ?_) fun token => ?_
  · have hhttps : realm.scheme = "https" := tokenUrl_https laws hsecure hrealm
    exact Talk.Sends.bind (Talk.Sends.send hhttps) fun _ => Talk.Sends.lift _
  refine Talk.Sends.bind (Talk.Sends.send hurl) fun retried => ?_
  split
  · exact Talk.Sends.lift _
  · exact Talk.Sends.lift _

theorem endpoint_https (laws : UrlLaws env) (hsecure : isInsecure client reference.registry = false) {path : String}
    {accept : Option String} {α : Type} {f : Response → Session α} (hf : ∀ response, Talk.Sends Https (f response)) :
    Talk.Sends Https (Talk.lift (endpointUrl env client reference.registry path) >>= fun url =>
      request env client reference url accept >>= f) := by
  refine Talk.Sends.lift_bind fun url hurl => Talk.Sends.bind (request_https laws hsecure ?_ accept) hf
  rw [endpointUrl_scheme laws hurl, hsecure]
  rfl

theorem fetchManifestDocument_https (laws : UrlLaws env) (hsecure : isInsecure client reference.registry = false)
    (target : String) : Talk.Sends Https (fetchManifestDocument env client reference target) :=
  endpoint_https laws hsecure fun _ => Talk.Sends.lift _

theorem resolve_https (laws : UrlLaws env) (hsecure : isInsecure client reference.registry = false) :
    Talk.Sends Https (resolve env client reference) := by
  have hdocument := fetchManifestDocument_https laws hsecure
  have hlocate : Talk.Sends Https (locate env client reference) := by
    refine Talk.Sends.bind (hdocument _) fun top => Talk.Sends.bind (Talk.Sends.lift _) fun document => ?_
    cases document with
    | manifest manifest => exact Talk.Sends.pure _
    | index entries =>
      refine Talk.Sends.bind (Talk.Sends.lift _) fun selected => ?_
      refine Talk.Sends.bind (hdocument _) fun child => Talk.Sends.bind (Talk.Sends.lift _) fun document => ?_
      cases document with
      | manifest manifest => exact Talk.Sends.pure _
      | index entries => exact Talk.Sends.lift _
  refine Talk.Sends.bind hlocate fun located => Talk.Sends.bind (Talk.Sends.lift _) fun layers => ?_
  refine Talk.Sends.bind (Talk.Sends.lift _) fun _ => ?_
  refine Talk.Sends.bind (endpoint_https laws hsecure fun _ => Talk.Sends.lift _) fun bytes => ?_
  exact Talk.Sends.bind (Talk.Sends.lift _) fun config => Talk.Sends.pure _

theorem fetchLayer_https (laws : UrlLaws env) (hsecure : isInsecure client reference.registry = false)
    (descriptor : LayerDescriptor) (sink : Sink) : Talk.Sends Https (fetchLayer env client reference descriptor sink) := by
  refine Talk.Sends.bind (Talk.Sends.lift _) fun _ => Talk.Sends.bind (Talk.Sends.lift _) fun _ => ?_
  exact endpoint_https laws hsecure fun _ => Talk.Sends.lift _

/-! ## Registries on the list -/

/-- The client with other credentials. -/
def Client.withCredentials (client : Client) (credentials : List (String × BasicCredential)) : Client :=
  { client with credentials }

variable {credentials : List (String × BasicCredential)}

/-- No credential is looked up for a URL that is not HTTPS. -/
theorem request_congr {url : Url} (hurl : url.scheme ≠ "https") (accept : Option String) :
    request env (client.withCredentials credentials) reference url accept = request env client reference url accept := by
  simp only [request, hurl, decide_false, if_false]
  rfl

theorem endpoint_congr (laws : UrlLaws env) (hinsecure : isInsecure client reference.registry = true) (path : String)
    (accept : Option String) {α : Type} (f : Response → Session α) :
    (Talk.lift (endpointUrl env (client.withCredentials credentials) reference.registry path) >>= fun url =>
        request env (client.withCredentials credentials) reference url accept >>= f) =
      (Talk.lift (endpointUrl env client reference.registry path) >>= fun url =>
        request env client reference url accept >>= f) := by
  refine Talk.lift_bind_congr fun url hurl => ?_
  have hscheme : url.scheme = "http" := by
    rw [endpointUrl_scheme laws hurl]
    exact if_pos hinsecure
  rw [request_congr (by rw [hscheme]; decide)]

theorem fetchManifestDocument_congr (laws : UrlLaws env) (hinsecure : isInsecure client reference.registry = true)
    (target : String) : fetchManifestDocument env (client.withCredentials credentials) reference target =
      fetchManifestDocument env client reference target :=
  endpoint_congr laws hinsecure _ _ _

theorem fetchBlobBytes_congr (laws : UrlLaws env) (hinsecure : isInsecure client reference.registry = true)
    (digest : String) (limit : Nat) (label : String) :
    fetchBlobBytes env (client.withCredentials credentials) reference digest limit label =
      fetchBlobBytes env client reference digest limit label :=
  endpoint_congr laws hinsecure _ _ _

theorem resolve_congr (laws : UrlLaws env) (hinsecure : isInsecure client reference.registry = true) :
    resolve env (client.withCredentials credentials) reference = resolve env client reference := by
  have hdocument := @fetchManifestDocument_congr env client reference credentials laws hinsecure
  have hlocate : locate env (client.withCredentials credentials) reference = locate env client reference := by
    unfold locate locateChild
    simp only [hdocument]
    rfl
  unfold resolve
  rw [hlocate]
  simp only [fetchBlobBytes_congr laws hinsecure]

theorem fetchLayer_congr (laws : UrlLaws env) (hinsecure : isInsecure client reference.registry = true)
    (descriptor : LayerDescriptor) (sink : Sink) :
    fetchLayer env (client.withCredentials credentials) reference descriptor sink =
      fetchLayer env client reference descriptor sink := by
  unfold fetchLayer
  rw [endpoint_congr laws hinsecure]

/-- **Credentials**: whatever a registry on the list answers, it is asked the same whatever credentials are stored; one
that is not on the list is asked over HTTPS alone, its token realms included; and Docker Hub is not on the list. -/
theorem credentials_kept (env : Env) (laws : UrlLaws env) (options : RegistryOptions)
    (credentials : List (String × BasicCredential)) (client : Client)
    (h : Client.withHttp options credentials = .ok client) (reference : OciReference) :
    (isInsecure client reference.registry = true → ∀ credentials' client', Client.withHttp options credentials' = .ok client' →
      resolve env client' reference = resolve env client reference ∧
        ∀ descriptor sink, fetchLayer env client' reference descriptor sink = fetchLayer env client reference descriptor sink) ∧
    (isInsecure client reference.registry = false → Talk.Sends Https (resolve env client reference) ∧
      ∀ descriptor sink, Talk.Sends Https (fetchLayer env client reference descriptor sink)) ∧
    (reference.registry ∈ dockerHub → Talk.Sends Https (resolve env client reference) ∧
      ∀ descriptor sink, Talk.Sends Https (fetchLayer env client reference descriptor sink)) := by
  have hsecure : isInsecure client reference.registry = false → Talk.Sends Https (resolve env client reference) ∧
      ∀ descriptor sink, Talk.Sends Https (fetchLayer env client reference descriptor sink) :=
    fun hnot => ⟨resolve_https laws hnot, fetchLayer_https laws hnot⟩
  refine ⟨fun hin credentials' client' h' => ?_, hsecure, fun hub => hsecure (isInsecure_dockerHub h hub)⟩
  have hclient : client' = client.withCredentials credentials' := by
    obtain ⟨entries, hentries, h⟩ := Res.bind_ok h
    obtain ⟨entries', hentries', h'⟩ := Res.bind_ok h'
    rw [hentries] at hentries'
    cases hentries'
    cases h
    cases h'
    rfl
  rw [hclient]
  exact ⟨resolve_congr laws hin, fetchLayer_congr laws hin⟩

end client

/-! ## A registry on the list -/

/-- A URL library that reads the scheme of a web address. -/
def schemeEnv : Env :=
  { sampleEnv with
    parseUrl text :=
      if "https://".toList.isPrefixOf text.toList then some ⟨"https", none, none, text⟩
      else if "http://".toList.isPrefixOf text.toList then some ⟨"http", none, none, text⟩
      else none }

theorem schemeEnv_laws : UrlLaws schemeEnv where
  https rest url h := by
    have hprefix : "https://".toList.isPrefixOf ("https://" ++ rest).toList = true := by
      rw [String.toList_append, List.isPrefixOf_iff_prefix]
      exact List.prefix_append _ _
    simp only [schemeEnv, hprefix, if_true] at h
    cases h
    rfl
  http rest url h := by
    have hprefix : "http://".toList.isPrefixOf ("http://" ++ rest).toList = true := by
      rw [String.toList_append, List.isPrefixOf_iff_prefix]
      exact List.prefix_append _ _
    have hnot : "https://".toList.isPrefixOf ("http://" ++ rest).toList = false := by
      rw [String.toList_append]
      rfl
    simp only [schemeEnv, hprefix, hnot, if_true, Bool.false_eq_true, if_false] at h
    cases h
    rfl
  query _ _ _ := rfl

def localOptions : RegistryOptions := ⟨.x86_64, ["LOCALHOST:5000"]⟩

def localClient (credentials : List (String × BasicCredential)) : Client := ⟨.x86_64, ["localhost:5000"], credentials⟩

theorem localClient_withHttp (credentials : List (String × BasicCredential)) :
    Client.withHttp localOptions credentials = .ok (localClient credentials) := by
  have hentry : insecureEntry "LOCALHOST:5000" = .ok "localhost:5000" := by decide
  simp only [Client.withHttp, localOptions, List.mapM_cons, List.mapM_nil, hentry]
  rfl

theorem credentials_kept_local :
    let reference : OciReference := ⟨"localhost:5000", "app", .tag "latest"⟩
    resolve schemeEnv (localClient [("localhost:5000", ⟨"user", "secret"⟩)]) reference =
        resolve schemeEnv (localClient []) reference ∧
      Talk.Sends Https (resolve schemeEnv (localClient []) { reference with registry := "docker.io" }) :=
  ⟨((credentials_kept schemeEnv schemeEnv_laws localOptions [] (localClient []) (localClient_withHttp [])
      ⟨"localhost:5000", "app", .tag "latest"⟩).1 (by decide) _ _ (localClient_withHttp _)).1,
    ((credentials_kept schemeEnv schemeEnv_laws localOptions [] (localClient []) (localClient_withHttp [])
      ⟨"docker.io", "app", .tag "latest"⟩).2.2 (by decide)).1⟩

end Firestone.Oci.Registry
