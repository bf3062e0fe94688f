import KubeConsole.Go.Path
import KubeConsole.Kube.Registry
import KubeConsole.Theory.Fields

/-!
The static files and the fallback page of the SPA (`internal/server/static.go`).

The router does not normalize paths, so the handler cleans the path of the request before
anything else, and hands the cleaned path on to net/http, which has checks of its own.
-/
namespace KubeConsole.Server
open KubeConsole.Go KubeConsole.Kube KubeConsole.Theory

/-- `apiPrefixes`. -/
def apiPrefixes : List Str := [str "/k8s", str "/api", str "/healthz", str "/readyz"]

/-- `isAPIPath`. -/
def isAPIPath (p : Str) : Bool :=
  apiPrefixes.any fun pre => p = pre || (pre ++ str "/") <+: p

/-- What `fs.Stat` finds under a name. -/
inductive FileInfo where
  | file | dir
  deriving DecidableEq, Repr

/-- The embedded file system. -/
abbrev DistFS := Str → Option FileInfo

/-- `fileExists`. -/
def fileExists (dist : DistFS) (name : Str) : Bool := dist name = some .file

inductive CacheControl where
  /-- `public, max-age=31536000, immutable`. -/
  | immutable
  /-- `public, max-age=300`. -/
  | brief
  | noStore
  deriving DecidableEq, Repr

/-- What the handler answers. -/
inductive StaticAnswer where
  /-- A JSON error of its own. -/
  | error (e : HttpError)
  /-- 404 as text: there is no bundle. -/
  | noBundle
  /-- 400 as text, by `http.ServeFileFS`. -/
  | invalidURLPath
  /-- 301 to `./`, by `http.ServeFileFS`. -/
  | redirect (cache : CacheControl)
  | file (name : Str) (cache : CacheControl)
  deriving DecidableEq, Repr

/-- `containsDotDot` of net/http, where a backslash counts as a slash. -/
def containsDotDot (v : Str) : Bool :=
  ((v.map fun b => if b = 0x5C then chr '/' else b).splitOn (chr '/')).contains (str "..")

/-- `http.ServeFileFS`, for a file that is there. -/
def serveFileFS (path name : Str) (cache : CacheControl) : StaticAnswer :=
  if containsDotDot path then .invalidURLPath
  else if str "/index.html" <:+ path then .redirect cache
  else .file name cache

def indexPage : Str := str "index.html"

/-- Content-hashed names are below `assets`. -/
def assetCache (name : Str) : CacheControl :=
  if str "assets/" <+: name then .immutable else .brief

/-- `spaHandler.ServeHTTP`. -/
def serveStatic (dist : DistFS) (method path : Str) : StaticAnswer :=
  if method ≠ str "GET" ∧ method ≠ str "HEAD" then
    .error ⟨405, "MethodNotAllowed", "method not allowed"⟩
  else
    let cleaned := cleanRooted (chr '/' :: trimPrefix path (str "/"))
    if isAPIPath cleaned then .error ⟨404, "NotFound", "not found"⟩
    else
      let name := trimPrefix cleaned (str "/")
      if name ≠ [] ∧ name ≠ indexPage ∧ fileExists dist name then
        serveFileFS cleaned name (assetCache name)
      else if !fileExists dist indexPage then .noBundle
      else serveFileFS cleaned indexPage .noStore

/-! The path by its elements. -/

/-- The names that the path of a request leads through. -/
def elements (path : Str) : List Str :=
  Lexical.resolve emptyOrDot dotDot (path.splitOn (chr '/'))

/-- The cleaned path, as the handler makes it. -/
theorem cleaned_eq (path : Str) : cleanRooted (chr '/' :: trimPrefix path (str "/")) =
    chr '/' :: [chr '/'].intercalate (elements path) := by
  have hslash : str "/" = [chr '/'] := rfl
  have helements : cleanElements (trimPrefix path (str "/")) = elements path := by
    unfold trimPrefix
    split_ifs with hp
    · obtain ⟨rest, rfl⟩ := hp
      rw [List.drop_left, hslash, List.singleton_append]
      exact (cleanElements_cons rest).symm
    · rfl
  rw [cleanRooted, cleanElements_cons, helements]

theorem element_of_mem_elements {path e : Str} (he : e ∈ elements path) : Element e := by
  have hclean : e ∈ cleanElements path := he
  exact element_of_mem hclean

section Joined
variable {segs : List Str} {root : Str}

/-- Joined elements are a word, or start with it and a slash, exactly if it is their first. -/
theorem head_eq_iff (hsegs : ∀ e ∈ segs, Element e) (hroot : chr '/' ∉ root) (hne : root ≠ []) :
    ([chr '/'].intercalate segs = root ∨ root ++ [chr '/'] <+: [chr '/'].intercalate segs) ↔
      segs.head? = some root := by
  have hsplit (h : segs ≠ []) : ([chr '/'].intercalate segs).splitOn (chr '/') = segs :=
    List.splitOn_intercalate (chr '/') (fun e he => (hsegs e he).noSlash) h
  constructor
  · rintro (heq | ⟨rest, hrest⟩)
    · have hsegs : segs ≠ [] := by
        rintro rfl
        exact hne heq.symm
      have h := hsplit hsegs
      rw [heq, List.splitOn_eq_singleton hroot] at h
      rw [← h, List.head?_cons]
    · have hsegs : segs ≠ [] := by
        rintro rfl
        simp at hrest
      have h := hsplit hsegs
      rw [← hrest, List.append_assoc, List.singleton_append,
        List.splitOn_append_cons_self_of_not_mem hroot] at h
      rw [← h, List.head?_cons]
  · intro h
    obtain ⟨others, rfl⟩ := List.head?_eq_some_iff.mp h
    cases others with
    | nil => exact .inl (by simp)
    | cons e others =>
      rw [List.intercalate_cons_cons]
      exact .inr (List.prefix_append _ _)

/-- They start with it and a slash exactly if there is another one behind it. -/
theorem prefix_iff (hsegs : ∀ e ∈ segs, Element e) (hroot : chr '/' ∉ root) (hne : root ≠ []) :
    root ++ [chr '/'] <+: [chr '/'].intercalate segs ↔ segs.head? = some root ∧ 1 < segs.length := by
  constructor
  · intro h
    have hhead := (head_eq_iff hsegs hroot hne).mp (.inr h)
    obtain ⟨others, rfl⟩ := List.head?_eq_some_iff.mp hhead
    refine ⟨hhead, ?_⟩
    cases others with
    | nil =>
      have hlen := h.length_le
      simp at hlen
    | cons e others => simp
  · rintro ⟨hhead, hlen⟩
    obtain ⟨others, rfl⟩ := List.head?_eq_some_iff.mp hhead
    cases others with
    | nil => simp at hlen
    | cons e others =>
      rw [List.intercalate_cons_cons]
      exact List.prefix_append _ _

end Joined

/-- The roots that belong to the backend. -/
def apiRoots : List Str := [str "k8s", str "api", str "healthz", str "readyz"]

/-- The check for API paths looks at the first element. -/
theorem isAPIPath_iff {segs : List Str} (h : ∀ e ∈ segs, Element e) :
    isAPIPath (chr '/' :: [chr '/'].intercalate segs) = true ↔ ∃ root ∈ apiRoots, segs.head? = some root := by
  have hroots : ∀ root ∈ apiRoots, chr '/' ∉ root ∧ root ≠ [] := by decide
  have hpre : apiPrefixes = apiRoots.map (chr '/' :: ·) := by decide
  have hslash : str "/" = [chr '/'] := rfl
  rw [isAPIPath, hpre, List.any_map, List.any_eq_true]
  refine exists_congr fun root => and_congr_right fun hroot => ?_
  obtain ⟨hno, hne⟩ := hroots root hroot
  rw [← head_eq_iff h hno hne]
  simp [hslash, List.cons_prefix_cons]

/-- The answer by the elements alone. -/
def serveElements (dist : DistFS) (method : Str) (segs : List Str) : StaticAnswer :=
  let cleaned := chr '/' :: [chr '/'].intercalate segs
  let name := [chr '/'].intercalate segs
  if method ≠ str "GET" ∧ method ≠ str "HEAD" then
    .error ⟨405, "MethodNotAllowed", "method not allowed"⟩
  else if isAPIPath cleaned then .error ⟨404, "NotFound", "not found"⟩
  else if name ≠ [] ∧ name ≠ indexPage ∧ fileExists dist name then
    serveFileFS cleaned name (assetCache name)
  else if !fileExists dist indexPage then .noBundle
  else serveFileFS cleaned indexPage .noStore

theorem serveStatic_eq (dist : DistFS) (method path : Str) :
    serveStatic dist method path = serveElements dist method (elements path) := by
  have hname (s : Str) : trimPrefix (chr '/' :: s) (str "/") = s := by
    have hslash : str "/" = [chr '/'] := rfl
    rw [trimPrefix, hslash, if_pos (by simp)]
    rfl
  simp only [serveStatic, serveElements, cleaned_eq, hname]

theorem serveFileFS_eq_file {path name name' : Str} {cache cache' : CacheControl}
    (h : serveFileFS path name cache = .file name' cache') : name = name' ∧ cache = cache' := by
  unfold serveFileFS at h
  split_ifs at h
  cases h
  exact ⟨rfl, rfl⟩

theorem serveFileFS_ne_error {path name : Str} {cache : CacheControl} {e : HttpError} :
    serveFileFS path name cache ≠ .error e := by
  unfold serveFileFS
  split_ifs <;> exact nofun

/-- Only a backslash makes net/http find a way up in a cleaned path. -/
theorem not_containsDotDot {segs : List Str} (h : ∀ e ∈ segs, Element e)
    (hback : (0x5C : UInt8) ∉ [chr '/'].intercalate segs) :
    containsDotDot (chr '/' :: [chr '/'].intercalate segs) = false := by
  have hmap : (chr '/' :: [chr '/'].intercalate segs).map
      (fun b => if b = 0x5C then chr '/' else b) = chr '/' :: [chr '/'].intercalate segs := by
    conv_rhs => rw [← List.map_id (chr '/' :: [chr '/'].intercalate segs)]
    refine List.map_congr_left fun b hb => ?_
    have hne : b ≠ 0x5C := by
      rintro rfl
      rcases List.mem_cons.mp hb with hb | hb
      · exact absurd hb (by decide)
      · exact hback hb
    rw [if_neg hne, id]
  have hsplit : (chr '/' :: [chr '/'].intercalate segs).splitOn (chr '/') =
      [] :: ([chr '/'].intercalate segs).splitOn (chr '/') :=
    List.splitOn_append_cons_self [] _
  rw [containsDotDot, hmap, hsplit, ← Bool.not_eq_true, List.contains_iff_mem, List.mem_cons, not_or]
  refine ⟨by decide, ?_⟩
  by_cases hne : segs = []
  · rw [hne]
    decide
  · rw [List.splitOn_intercalate (chr '/') (fun e he => (h e he).noSlash) hne]
    exact fun hm => (h _ hm).notDotDot rfl

/-- The name of a file that is served: proper elements below a first one that is not the backend's. -/
structure ServedFile (dist : DistFS) (segs : List Str) (name : Str) (cache : CacheControl) : Prop where
  exists_ : fileExists dist name
  elements : ∃ es, es ≠ [] ∧ (∀ e ∈ es, Element e) ∧ (∀ root ∈ apiRoots, es.head? ≠ some root) ∧
    name = [chr '/'].intercalate es
  index : name = indexPage → cache = .noStore
  asset : name ≠ indexPage → name = [chr '/'].intercalate segs ∧
    (cache = .immutable ↔ segs.head? = some (str "assets") ∧ 1 < segs.length)

theorem served_of_file {dist : DistFS} {method name : Str} {segs : List Str} {cache : CacheControl}
    (hsegs : ∀ e ∈ segs, Element e) (h : serveElements dist method segs = .file name cache) :
    ServedFile dist segs name cache := by
  unfold serveElements at h
  dsimp only at h
  split_ifs at h with hm hapi hfile hindex
  · obtain ⟨rfl, rfl⟩ := serveFileFS_eq_file h
    obtain ⟨hne, hnot, hexists⟩ := hfile
    have hsegsne : segs ≠ [] := by
      rintro rfl
      exact hne rfl
    refine ⟨hexists, ⟨segs, hsegsne, hsegs, fun root hroot hhead => ?_, rfl⟩, fun h => absurd h hnot,
      fun _ => ⟨rfl, ?_⟩⟩
    · exact hapi ((isAPIPath_iff hsegs).mpr ⟨root, hroot, hhead⟩)
    · have hassets : str "assets/" = str "assets" ++ [chr '/'] := rfl
      rw [← prefix_iff hsegs (by decide) (by decide), ← hassets, assetCache]
      split_ifs with hp
      · simp [hp]
      · simp [hp]
  · obtain ⟨rfl, rfl⟩ := serveFileFS_eq_file h
    have hpage : Element indexPage := ⟨by decide, by decide, by decide, by decide⟩
    refine ⟨by simpa using hindex, ⟨[indexPage], by simp, by simpa using hpage, ?_, by simp⟩,
      fun _ => rfl, fun h => absurd rfl h⟩
    decide

/-- The answer to a request does not depend on how its path is spelled: paths that lead to the same
place get the same answer. A path below a root of the backend gets the JSON 404, and only such a
path; a file that is served is a proper name in the bundle outside those roots, the page is never
cached and only what is below `assets` is cached for good; and net/http's own rejection is reached
only with a backslash in the path. -/
theorem serveStatic_spec (dist : DistFS) (method path : Str) :
    (∀ path', Lexical.Same emptyOrDot dotDot (path.splitOn (chr '/')) (path'.splitOn (chr '/')) →
      serveStatic dist method path = serveStatic dist method path') ∧
    (method = str "GET" ∨ method = str "HEAD" →
      (serveStatic dist method path = .error ⟨404, "NotFound", "not found"⟩ ↔
        ∃ root ∈ apiRoots, (elements path).head? = some root)) ∧
    (∀ name cache, serveStatic dist method path = .file name cache →
      ServedFile dist (elements path) name cache) ∧
    (serveStatic dist method path = .invalidURLPath → (0x5C : UInt8) ∈ path) := by
  have hsegs : ∀ e ∈ elements path, Element e := fun e he => element_of_mem_elements he
  refine ⟨fun path' h => ?_, fun hm => ?_, fun name cache h => ?_, fun h => ?_⟩
  · rw [serveStatic_eq, serveStatic_eq, elements, elements, Lexical.same_iff.mp h]
  · rw [serveStatic_eq, ← isAPIPath_iff hsegs]
    have hmethod : ¬(method ≠ str "GET" ∧ method ≠ str "HEAD") := fun h =>
      hm.elim (fun hget => h.1 hget) fun hhead => h.2 hhead
    unfold serveElements
    dsimp only
    rw [if_neg hmethod]
    constructor
    · intro h
      by_contra hapi
      rw [if_neg hapi] at h
      split_ifs at h
      · exact serveFileFS_ne_error h
      · exact serveFileFS_ne_error h
    · exact fun hapi => if_pos hapi
  · rw [serveStatic_eq] at h
    exact served_of_file hsegs h
  · rw [serveStatic_eq] at h
    by_contra hback
    have hnone : containsDotDot (chr '/' :: [chr '/'].intercalate (elements path)) = false := by
      refine not_containsDotDot hsegs fun hm => ?_
      rcases mem_intercalate hm with hb | ⟨e, he, hb⟩
      · exact absurd hb (by decide)
      · exact hback (mem_of_mem_splitOn (Lexical.mem_resolve he).1 hb).1
    unfold serveElements serveFileFS at h
    dsimp only at h
    simp only [hnone, Bool.false_eq_true, if_false] at h
    split_ifs at h

example : serveStatic (fun _ => some .file) (str "GET") (str "/r/../assets//app.js") =
    .file (str "assets/app.js") .immutable := by decide +kernel

end KubeConsole.Server
