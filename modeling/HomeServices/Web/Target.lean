import HomeServices.Web.Proxy

/-!
# What the proxy requests

The proxy appends the path of a request to `/api/v1` as it was sent, and a parser of URLs reads the
whole. Segments of the request may climb over the prefix.

* `GatewayUrl`: the URL of the gateway, in parts; `basePath`: the path it stands for.
* `Confined`: the path requested starts with the prefix.
* `Returns`: what a request climbs over is entered again.
* **`confined_iff`**: a request is confined exactly when it returns.
-/

namespace Web

open UrlPath

/-! ## The URL of the gateway -/

/-- A URL of the web, which may have a query or a fragment behind its path. -/
structure GatewayUrl where
  scheme : String
  authority : String
  path : String
  suffix : String
  web : scheme.toList.map Char.toLower = "http".toList ∨ scheme.toList.map Char.toLower = "https".toList
  authority_ne : authority.toList ≠ []
  authority_chars : ∀ c ∈ authority.toList, isControl c = false ∧ endsAuthority c = false
  rooted : ∀ c, path.toList.head? = some c → isSlash c = true
  path_chars : ∀ c ∈ path.toList, isControl c = false ∧ endsPath c = false
  suffix_start : ∀ c, suffix.toList.head? = some c → endsPath c = true
  suffix_chars : ∀ c ∈ suffix.toList, isControl c = false

namespace GatewayUrl

variable (g : GatewayUrl)

def text : String := g.scheme ++ "://" ++ g.authority ++ g.path ++ g.suffix

/-- The segments of the path, as a directory. -/
def base : List (List Char) := (parsePath (g.path ++ "/").toList).dropLast

/-- The path of the gateway's URL, without a slash at its end. -/
def basePath : List Char := render g.base

theorem base_eq : g.base = walk kind [] (directories g.path.toList) := by
  unfold base
  rw [String.toList_append]
  exact (congrArg List.dropLast (parsePath_directory g.path.toList)).trans List.dropLast_concat

theorem slash_not_mem_base : ∀ s ∈ g.base, '/' ∉ s := fun s hs =>
  slash_not_mem_resolve (fun _ ht => slash_not_mem_segments ht) s (List.dropLast_subset _ hs)

theorem scheme_chars : ∀ c ∈ g.scheme.toList, isControl c = false := by
  intro c hc
  have hmem := List.mem_map_of_mem (f := Char.toLower) hc
  by_contra hcontrol
  have hle : c.val ≤ 0x20 := of_decide_eq_true (Bool.not_eq_false _ ▸ hcontrol)
  have hlower : c.toLower = c := dif_neg fun h => absurd (UInt32.le_trans h.1 hle) (by decide)
  rw [hlower] at hmem
  rcases g.web with hweb | hweb <;> rw [hweb] at hmem <;> refine hcontrol ?_
  · have hhttp : ∀ c ∈ "http".toList, isControl c = false := List.all_iff_forall_prop.mp (by decide)
    exact hhttp c hmem
  · have hhttps : ∀ c ∈ "https".toList, isControl c = false := List.all_iff_forall_prop.mp (by decide)
    exact hhttps c hmem

/-- **What the parser makes of the URL with more text behind it.** -/
theorem parse_append {path suffix : List Char} (hrooted : ∀ c, path.head? = some c → isSlash c = true)
    (hpath : ∀ c ∈ path, isControl c = false ∧ endsPath c = false)
    (hstart : ∀ c, suffix.head? = some c → endsPath c = true)
    (hsuffix : ∀ c ∈ suffix, isControl c = false) :
    parse (g.scheme.toList ++ "://".toList ++ g.authority.toList ++ path ++ suffix) =
      some ⟨g.scheme.toList.map Char.toLower, g.authority.toList, parsePath path⟩ := by
  refine parse_eq g.web g.authority_ne (fun c hc => (g.authority_chars c hc).2) hrooted
    (fun c hc => (hpath c hc).2) hstart fun c hc => ?_
  have hcolon : ∀ c ∈ "://".toList, isControl c = false := List.all_iff_forall_prop.mp (by decide)
  simp only [List.mem_append] at hc
  rcases hc with (((hc | hc) | hc) | hc) | hc
  · exact g.scheme_chars c hc
  · exact hcolon c hc
  · exact (g.authority_chars c hc).1
  · exact (hpath c hc).1
  · exact hsuffix c hc

/-- A URL without a slash at its end is not trimmed. -/
theorem apiProxy_text (hslash : g.text.toList.getLast? ≠ some '/') : apiProxy g.text = ⟨g.text⟩ := by
  have htrim : g.text.toList.rdropWhile (· == '/') = g.text.toList := by
    refine List.rdropWhile_eq_self_iff.mpr fun hne hlast => hslash ?_
    rw [List.getLast?_eq_some_getLast hne, beq_iff_eq.mp hlast]
  unfold apiProxy trimEndMatches
  rw [htrim, String.ofList_toList]

end GatewayUrl

/-! ## Confinement -/

def api : List Char := "api".toList

def v1 : List Char := "v1".toList

/-- The path requested from the gateway starts with its own path and `/api/v1/`. -/
def Confined (g : GatewayUrl) (uri : Uri) : Prop :=
  ∀ u, parse (proxyUrl (apiProxy g.text) uri).toList = some u →
    g.basePath ++ "/api/v1/".toList <+: u.pathname

/-- The segments that are climbed over are entered again, and more. -/
def Returns (dir ss : List (List Char)) : Prop :=
  ∃ s rest, resolve ss = dir.drop (dir.length - (reduce kind ss).climbs) ++ s :: rest

/-- Segments that do not climb return. -/
theorem returns_of_climbs_eq_zero {dir ss : List (List Char)} (hss : ss ≠ [])
    (hclimbs : (reduce kind ss).climbs = 0) : Returns dir ss := by
  obtain ⟨s, rest, htail⟩ := List.exists_cons_of_ne_nil (resolve_ne_nil hss)
  refine ⟨s, rest, ?_⟩
  rw [hclimbs, Nat.sub_zero, List.drop_length, htail]
  rfl

section Requests

variable {g : GatewayUrl} {uri : Uri}

/-- The segments of the path of a request, below the prefix. -/
def Uri.segments (uri : Uri) : List (List Char) := UrlPath.segments uri.path.toList.tail

theorem Uri.segments_ne_nil (uri : Uri) : uri.segments ≠ [] := UrlPath.segments_ne_nil _

theorem Uri.path_eq (uri : Uri) : uri.path.toList = '/' :: uri.path.toList.tail := by
  have hrooted := uri.rooted
  cases hpath : uri.path.toList with
  | nil => rw [hpath] at hrooted; cases hrooted
  | cons c path => rw [hpath] at hrooted; cases hrooted; rfl

/-- The query of a request, with its mark. -/
def Uri.queryText (uri : Uri) : List Char := ((uri.query.map fun q => "?" ++ q).getD "").toList

theorem Uri.queryText_head (uri : Uri) : ∀ c, uri.queryText.head? = some c → endsPath c = true := by
  intro c hc
  unfold queryText at hc
  cases hquery : uri.query with
  | none => rw [hquery] at hc; cases hc
  | some q =>
    rw [hquery, Option.map_some, Option.getD_some, String.toList_append] at hc
    cases hc
    rfl

theorem Uri.queryText_chars (uri : Uri) : ∀ c ∈ uri.queryText, isControl c = false := by
  intro c hc
  unfold queryText at hc
  cases hquery : uri.query with
  | none => rw [hquery] at hc; cases hc
  | some q =>
    rw [hquery, Option.map_some, Option.getD_some, String.toList_append] at hc
    rcases List.mem_append.mp hc with hc | hc
    · have hmark : ∀ c ∈ "?".toList, isControl c = false := List.all_iff_forall_prop.mp (by decide)
      exact hmark c hc
    · exact (uri.query_chars q hquery c hc).1

theorem proxyUrl_toList (hslash : g.text.toList.getLast? ≠ some '/') :
    (proxyUrl (apiProxy g.text) uri).toList = g.scheme.toList ++ "://".toList ++ g.authority.toList ++
      g.path.toList ++ (g.suffix.toList ++ ("/api/v1".toList ++ (uri.path.toList ++ uri.queryText))) := by
  rw [g.apiProxy_text hslash]
  simp only [proxyUrl, GatewayUrl.text, Uri.queryText, String.toList_append, List.append_assoc]

theorem api_chars : ∀ c ∈ "/api/v1".toList, isControl c = false ∧ endsPath c = false :=
  List.all_iff_forall_prop.mp (by decide)

/-- The path requested when the gateway's URL ends with its path. -/
theorem parse_proxyUrl (hslash : g.text.toList.getLast? ≠ some '/') (hsuffix : g.suffix.toList = []) :
    parse (proxyUrl (apiProxy g.text) uri).toList = some
      ⟨g.scheme.toList.map Char.toLower, g.authority.toList,
        (g.base ++ [api, v1]).take ((g.base ++ [api, v1]).length - (reduce kind uri.segments).climbs) ++
          resolve uri.segments⟩ := by
  have htext : (proxyUrl (apiProxy g.text) uri).toList = g.scheme.toList ++ "://".toList ++
      g.authority.toList ++ (g.path.toList ++ ("/api/v1".toList ++ uri.path.toList)) ++ uri.queryText := by
    rw [proxyUrl_toList hslash, hsuffix]
    simp only [List.nil_append, List.append_assoc]
  have hpath : parsePath (g.path.toList ++ ("/api/v1".toList ++ uri.path.toList)) =
      (g.base ++ [api, v1]).take ((g.base ++ [api, v1]).length - (reduce kind uri.segments).climbs) ++
        resolve uri.segments := by
    have hsplit : UrlPath.segments ("api/v1".toList ++ '/' :: uri.path.toList.tail) =
        [api, v1] ++ uri.segments := by
      rw [segments_append_slash]
      rfl
    have hwalk : walk kind [] (directories g.path.toList ++ [api, v1]) = g.base ++ [api, v1] := by
      rw [walk_append, ← g.base_eq]
      exact (walk_append kind g.base [api] [v1]).trans (by
        rw [walk_singleton kind (by rfl), walk_singleton kind (by rfl), List.append_assoc]
        rfl)
    rw [uri.path_eq]
    change parsePath (g.path.toList ++ '/' :: ("api/v1".toList ++ '/' :: uri.path.toList.tail)) = _
    rw [parsePath_append_slash, hsplit, ← List.append_assoc, resolve_append _ uri.segments_ne_nil, hwalk]
  rw [htext, ← hpath]
  refine g.parse_append (fun c hc => ?_) (fun c hc => ?_) uri.queryText_head uri.queryText_chars
  · cases hp : g.path.toList with
    | nil => rw [hp] at hc; cases hc; rfl
    | cons d path => exact g.rooted c (by rw [hp] at hc ⊢; exact hc)
  · rcases List.mem_append.mp hc with hc | hc
    · exact g.path_chars c hc
    · rcases List.mem_append.mp hc with hc | hc
      · exact api_chars c hc
      · exact uri.path_chars c hc

/-- The path requested when the gateway's URL has a query or a fragment. -/
theorem parse_proxyUrl_suffix (hslash : g.text.toList.getLast? ≠ some '/') (hsuffix : g.suffix.toList ≠ []) :
    parse (proxyUrl (apiProxy g.text) uri).toList = some
      ⟨g.scheme.toList.map Char.toLower, g.authority.toList, parsePath g.path.toList⟩ := by
  rw [proxyUrl_toList hslash]
  refine g.parse_append g.rooted g.path_chars (fun c hc => ?_) fun c hc => ?_
  · obtain ⟨d, suffix, hs⟩ := List.exists_cons_of_ne_nil hsuffix
    exact g.suffix_start c (by rw [hs] at hc ⊢; exact hc)
  · rcases List.mem_append.mp hc with hc | hc
    · exact g.suffix_chars c hc
    · rcases List.mem_append.mp hc with hc | hc
      · exact (api_chars c hc).1
      · rcases List.mem_append.mp hc with hc | hc
        · exact (uri.path_chars c hc).1
        · exact uri.queryText_chars c hc

/-- The prefix, as the path of a directory. -/
theorem prefix_eq : g.basePath ++ "/api/v1/".toList = render (g.base ++ [api, v1]) ++ ['/'] := by
  rw [render_append, List.append_assoc]
  rfl

/-- **The proxy stays under `/api/v1` exactly when the request returns where it climbs**, and the URL of
the gateway ends with its path. -/
theorem confined_iff (hslash : g.text.toList.getLast? ≠ some '/') :
    Confined g uri ↔ g.suffix.toList = [] ∧ Returns (g.base ++ [api, v1]) uri.segments := by
  have hdir : ∀ s ∈ g.base ++ [api, v1], '/' ∉ s := by
    intro s hs
    rcases List.mem_append.mp hs with hs | hs
    · exact g.slash_not_mem_base s hs
    · exact (by decide : ∀ s ∈ [api, v1], '/' ∉ s) s hs
  by_cases hsuffix : g.suffix.toList = []
  · have hpath : ∀ s ∈ (g.base ++ [api, v1]).take ((g.base ++ [api, v1]).length -
        (reduce kind uri.segments).climbs) ++ resolve uri.segments, '/' ∉ s := by
      intro s hs
      rcases List.mem_append.mp hs with hs | hs
      · exact hdir s (List.mem_of_mem_take hs)
      · exact slash_not_mem_resolve (fun _ ht => slash_not_mem_segments ht) s hs
    unfold Confined
    rw [parse_proxyUrl hslash hsuffix, prefix_eq]
    simp only [Option.some.injEq, forall_eq', hsuffix, true_and]
    refine (render_prefix_iff hdir hpath).trans ⟨?_, ?_⟩
    · rintro ⟨s, rest, heq⟩
      refine ⟨s, rest, List.append_cancel_left (Eq.trans heq ?_)⟩
      rw [← List.append_assoc, List.take_append_drop]
    · rintro ⟨s, rest, heq⟩
      refine ⟨s, rest, ?_⟩
      rw [heq, ← List.append_assoc, List.take_append_drop]
  · refine iff_of_false (fun hconfined => ?_) fun h => hsuffix h.1
    have hprefix := hconfined _ (parse_proxyUrl_suffix hslash hsuffix)
    rw [prefix_eq] at hprefix
    obtain ⟨s, rest, heq⟩ := (render_prefix_iff hdir (slash_not_mem_resolve fun _ hs =>
      slash_not_mem_segments hs)).mp hprefix
    have hlength := length_parsePath_le g.path.toList
    rw [show parsePath g.path.toList = _ from heq, ← g.base_eq] at hlength
    simp only [List.length_append, List.length_cons, List.length_nil] at hlength
    omega

end Requests

/-! ## Samples -/

namespace Sample

/-- The default URL of the gateway. -/
def gateway : GatewayUrl where
  scheme := "http"
  authority := "[::1]:8080"
  path := ""
  suffix := ""
  web := Or.inl (by decide)
  authority_ne := by decide
  authority_chars := List.all_iff_forall_prop.mp (by decide)
  rooted := fun _ hc => by cases hc
  path_chars := fun _ hc => by cases hc
  suffix_start := fun _ hc => by cases hc
  suffix_chars := fun _ hc => by cases hc

/-- The path climbs over the prefix, once as dots and once percent-encoded. -/
def climbing : Uri := ⟨"/../%2E%2e/health", none, rfl, List.all_iff_forall_prop.mp (by decide),
  fun _ hq => by cases hq⟩

/-- A request that does not climb is confined. -/
theorem confined_users : Confined gateway users :=
  (confined_iff (by decide +kernel)).mpr
    ⟨rfl, returns_of_climbs_eq_zero users.segments_ne_nil (by decide +kernel)⟩

/-- **A request leaves the prefix.** -/
theorem escapes : ¬ Confined gateway climbing := by
  intro hconfined
  have hprefix := hconfined _ (parse_proxyUrl (by decide +kernel) rfl)
  exact absurd hprefix (by decide +kernel)

end Sample

end Web
