import Mathlib.Data.List.Infix
import Shyake.Lib.Bytes

/-!
# The local server of the GUI (`webui/src/server.ts`)

Every request to `/api/` needs the token of the launch, and every other request is for a file of
the page. The token gets to the page by being written into `index.html`, whoever asks for it.
-/

namespace Shyake.Gui

/-! ## Requests and responses -/

/-- `crypto.randomUUID()`: hexadecimal digits and hyphens. -/
structure Token where
  text : Bytes
  chars : text.all (utf8 "0123456789abcdef-").contains = true

structure Request where
  method : Bytes
  /-- `new URL(req.url).pathname`. -/
  pathname : Bytes
  /-- The header `x-shyake-token`. -/
  token : Option Bytes
  /-- The query, the other headers and the body. -/
  rest : Bytes

structure Response where
  status : Nat
  contentType : Bytes
  body : Bytes
  deriving DecidableEq

/-- What the server does not contain: the routes with their handlers, the files of `PUBLIC_DIR`,
and `TextDecoder`. `World` is the account with its session, and all files. -/
structure Site (World : Type) where
  route : Request → World → Response × World
  publicFile : World → Bytes → Option Bytes
  decode : Bytes → Bytes

/-! ## Files of the page -/

/-- `String.replace` of a string by a string without a dollar sign: the first occurrence. -/
def replace (pattern by_ : Bytes) : Bytes → Bytes
  | [] => []
  | c :: s =>
    if pattern.isPrefixOf (c :: s) then by_ ++ (c :: s).drop pattern.length
    else c :: replace pattern by_ s

/-- `"__SHYAKE_TOKEN__"`, with its quotes. -/
def placeholder : Bytes := 34 :: (utf8 "__SHYAKE_TOKEN__" ++ [34])

/-- `JSON.stringify(TOKEN)`. -/
def Token.stringify (t : Token) : Bytes := 34 :: (t.text ++ [34])

/-- `rel.slice(rel.lastIndexOf("."))`. Without a dot that is the last character. -/
def extension (rel : Bytes) : Bytes :=
  if rel.contains 46 then 46 :: (rel.reverse.takeWhile (· != 46)).reverse
  else rel.drop (rel.length - 1)

def mime (ext : Bytes) : Bytes :=
  if ext = utf8 ".html" then utf8 "text/html; charset=utf-8"
  else if ext = utf8 ".js" then utf8 "text/javascript; charset=utf-8"
  else if ext = utf8 ".css" then utf8 "text/css; charset=utf-8"
  else utf8 "application/octet-stream"

def plainText (text : String) (status : Nat) : Response :=
  ⟨status, utf8 "text/plain;charset=utf-8", utf8 text⟩

def json (text : String) (status : Nat) : Response :=
  ⟨status, utf8 "application/json;charset=utf-8", utf8 text⟩

section

variable {World : Type} (site : Site World)

/-- `rel`. -/
def relative (pathname : Bytes) : Bytes :=
  if pathname = utf8 "/" then utf8 "index.html" else pathname.drop 1

def serveStatic (token : Token) (w : World) (pathname : Bytes) : Response :=
  let rel := relative pathname
  if utf8 ".." <:+: rel then plainText "bad path" 400
  else
    match site.publicFile w rel with
    | none => plainText "not found" 404
    | some body =>
      let body :=
        if rel = utf8 "index.html" then replace placeholder token.stringify (site.decode body)
        else body
      ⟨200, mime (extension rel), body⟩

/-- The `fetch` of `Bun.serve`. The routes are looked up behind the check of the token. -/
def fetch (token : Token) (w : World) (req : Request) : Response × World :=
  if (utf8 "/api/").isPrefixOf req.pathname then
    if req.token ≠ some token.text then (json "forbidden" 403, w) else site.route req w
  else (serveStatic site token w req.pathname, w)

/-- One request after the other: the responses, and what is left. -/
def fetchAll (token : Token) (w : World) : List Request → List Response × World
  | [] => ([], w)
  | req :: reqs =>
    let (response, w) := fetch site token w req
    let (responses, w) := fetchAll token w reqs
    (response :: responses, w)

/-- The answer to the request is the page with the token in it. -/
def ShowsToken (w : World) (req : Request) : Prop :=
  (utf8 "/api/").isPrefixOf req.pathname = false ∧ relative req.pathname = utf8 "index.html" ∧
    ∃ page ∈ site.publicFile w (utf8 "index.html"), placeholder <:+: site.decode page

end

/-! ## The first occurrence -/

theorem replace_eq_self {pattern by_ s : Bytes} (absent : ¬ pattern <:+: s) :
    replace pattern by_ s = s := by
  induction s with
  | nil => rfl
  | cons c s ih =>
    have here : ¬ pattern.isPrefixOf (c :: s) = true := fun front =>
      absent (List.isPrefixOf_iff_prefix.mp front).isInfix
    have later : ¬ pattern <:+: s := fun inside => absent (inside.trans (List.infix_cons_iff.mpr
      (.inr List.infix_rfl)))
    rw [replace, if_neg here, ih later]

/-- What was put in can be read off what came out. -/
theorem replace_inj {pattern x y s : Bytes} (present : pattern <:+: s) (nonempty : pattern ≠ [])
    (same : replace pattern x s = replace pattern y s) : x = y := by
  induction s with
  | nil => exact absurd (List.infix_nil.mp present) nonempty
  | cons c s ih =>
    by_cases front : pattern.isPrefixOf (c :: s) = true
    · rw [replace, replace, if_pos front, if_pos front] at same
      exact List.append_cancel_right same
    · have later : pattern <:+: s := by
        rcases List.infix_cons_iff.mp present with here | inside
        · exact absurd (List.isPrefixOf_iff_prefix.mpr here) front
        · exact inside
      rw [replace, replace, if_neg front, if_neg front] at same
      exact ih later (List.cons.inj same).2

theorem Token.stringify_inj {t u : Token} (same : t.stringify = u.stringify) : t.text = u.text :=
  List.append_cancel_right (List.cons.inj same).2

/-! ## Two launches side by side -/

section

variable {World : Type} {site : Site World} {t u : Token} {w : World} {req : Request}

/-- A request without the token leaves the account and the files as they are. -/
theorem fetch_world (without : req.token ≠ some t.text) : (fetch site t w req).2 = w := by
  unfold fetch
  by_cases api : (utf8 "/api/").isPrefixOf req.pathname = true
  · rw [if_pos api, if_pos without]
  · rw [if_neg api]

theorem serveStatic_eq_iff (ne : t.text ≠ u.text) (pathname : Bytes) :
    serveStatic site t w pathname = serveStatic site u w pathname ↔
      ¬ (relative pathname = utf8 "index.html" ∧
        ∃ page ∈ site.publicFile w (utf8 "index.html"), placeholder <:+: site.decode page) := by
  by_cases index : relative pathname = utf8 "index.html"
  · have good : ¬ utf8 ".." <:+: utf8 "index.html" := by decide
    unfold serveStatic
    rw [index]
    simp only [if_neg good, true_and, if_true]
    cases file : site.publicFile w (utf8 "index.html") with
    | none => simp
    | some page =>
      have content : (∃ p ∈ some page, placeholder <:+: site.decode p) ↔
          placeholder <:+: site.decode page := by simp
      rw [content]
      constructor
      · intro same present
        have bodies := congrArg Response.body same
        exact ne (Token.stringify_inj (replace_inj present (List.cons_ne_nil _ _) bodies))
      · intro absent
        simp only [replace_eq_self absent]
  · have none_shown : ¬ (relative pathname = utf8 "index.html" ∧
        ∃ page ∈ site.publicFile w (utf8 "index.html"), placeholder <:+: site.decode page) :=
      fun shown => index shown.1
    refine iff_of_true ?_ none_shown
    unfold serveStatic
    simp only [if_neg index]

theorem fetch_eq_iff (ne : t.text ≠ u.text) (withoutT : req.token ≠ some t.text)
    (withoutU : req.token ≠ some u.text) :
    fetch site t w req = fetch site u w req ↔ ¬ ShowsToken site w req := by
  unfold fetch ShowsToken
  by_cases api : (utf8 "/api/").isPrefixOf req.pathname = true
  · simp [api, withoutT, withoutU]
  · have other := Bool.eq_false_iff.mpr api
    rw [if_neg api, if_neg api, Prod.mk.injEq, and_iff_left rfl]
    simp only [other, true_and]
    exact serveStatic_eq_iff ne req.pathname

/-- A local process without the token gets the same answers and does the same to the account,
whatever the token is, unless it asks for the page that has the token written into it. -/
theorem token_stays (site : Site World) (t u : Token) (ne : t.text ≠ u.text) (w : World)
    (reqs : List Request)
    (without : ∀ req ∈ reqs, req.token ≠ some t.text ∧ req.token ≠ some u.text) :
    fetchAll site t w reqs = fetchAll site u w reqs ↔
      ∀ req ∈ reqs, ¬ ShowsToken site w req := by
  induction reqs with
  | nil => simp [fetchAll]
  | cons req reqs ih =>
    obtain ⟨withoutT, withoutU⟩ := without req List.mem_cons_self
    have rest := ih fun r mem => without r (List.mem_cons_of_mem _ mem)
    have first : fetch site t w req = fetch site u w req ↔ ¬ ShowsToken site w req :=
      fetch_eq_iff ne withoutT withoutU
    have worldT : (fetch site t w req).2 = w := fetch_world withoutT
    have worldU : (fetch site u w req).2 = w := fetch_world withoutU
    rw [List.forall_mem_cons, ← first, ← rest]
    simp only [fetchAll]
    rw [worldT, worldU]
    constructor
    · intro same
      obtain ⟨answers, world⟩ := Prod.mk.inj same
      obtain ⟨answer, answers⟩ := List.cons.inj answers
      exact ⟨Prod.ext answer (worldT.trans worldU.symm), Prod.ext answers world⟩
    · rintro ⟨answer, answers⟩
      rw [answer, answers]

end

namespace Sample

def launched : Token where
  text := utf8 "0a"
  chars := by decide

def relaunched : Token where
  text := utf8 "0b"
  chars := by decide

/-- The script element of `index.html`. -/
def site : Site Unit where
  route _ w := (json "not found" 404, w)
  publicFile _ rel :=
    if rel = utf8 "index.html" then
      some (utf8 "<script>window.__SHYAKE_TOKEN__ = " ++ placeholder ++ utf8 ";</script>")
    else none
  decode body := body

def get (pathname : String) : Request := ⟨utf8 "GET", utf8 pathname, none, []⟩

/-- Whoever opens the page reads the token in it. -/
theorem page_shows_token : ¬ ∀ (World : Type) (site : Site World) (t u : Token) (w : World)
    (reqs : List Request),
    (∀ req ∈ reqs, req.token ≠ some t.text ∧ req.token ≠ some u.text) →
      fetchAll site t w reqs = fetchAll site u w reqs := by
  intro all
  have same := all Unit site launched relaunched () [get "/"] (by
    intro req mem
    obtain rfl := List.mem_singleton.mp mem
    exact ⟨nofun, nofun⟩)
  exact absurd same (by decide)

theorem token_stays_style :
    fetchAll site launched () [get "/style.css"] = fetchAll site relaunched () [get "/style.css"] :=
  (token_stays site launched relaunched (by decide) () [get "/style.css"] (by
    intro req mem
    obtain rfl := List.mem_singleton.mp mem
    exact ⟨nofun, nofun⟩)).mpr (by
      intro req mem
      obtain rfl := List.mem_singleton.mp mem
      rintro ⟨-, index, -⟩
      revert index
      decide)

end Sample

end Shyake.Gui
