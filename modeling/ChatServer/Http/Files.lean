import ChatServer.Http.Mime
import ChatServer.Lib.Path
import Mathlib.Data.List.TakeWhile

/-!
# Static files

Which file a request opens, and what the response says of it.

* `Call.Opens`: the handler opens a path, that is, its response depends on what opening the path
  gives. `opens_iff`: it opens at most the one that it builds for the target.
* `staticFiles`: what it opens is below the document root. `legalTarget` is a test of the raw
  target; it keeps `..` out of the segments, and the rest is about lexical paths.
-/

namespace ChatServer

open Lib

variable {env : HttpEnv} {call : Call} {path : Bytes}

/-! ## The file that is opened -/

/-- The handler opens `path`: its response depends on what opening `path` gives. -/
def Call.Opens (env : HttpEnv) (call : Call) (path : Bytes) : Prop :=
  ∃ opened, { call with files := Function.update call.files path opened }.response env ≠
    call.response env

/-- The request gets past the tests of the handler. -/
def Request.asksFile (req : Request) : Prop :=
  ¬(req.target = ascii "/api/ws" ∧ req.method = .get) ∧ (req.method = .get ∨ req.method = .head) ∧
    legalTarget req.target = true

/-- What the handler makes of an attempt to open the file. -/
def fileAnswer (env : HttpEnv) (req : Request) : Except OpenError Bytes → Response
  | .error .noSuchFile => notFound env req req.target
  | .error (.other message) => serverError env req message
  | .ok content => fileResponse env req (filePath env.docRoot req.target) content.length
      (if req.method = .head then .empty else .file content)

theorem response_of_asksFile (h : call.req.asksFile) :
    call.response env =
      fileAnswer env call.req (call.files (cStr (filePath env.docRoot call.req.target))) := by
  obtain ⟨htoken, hm, ht⟩ := h
  have hm' : ¬(call.req.method ≠ .get ∧ call.req.method ≠ .head) := fun hn => hm.elim hn.1 hn.2
  simp only [Call.response, handleRequest, if_neg htoken, if_neg hm', ht, Bool.not_true,
    Bool.false_eq_true, if_false]
  cases call.files (cStr (filePath env.docRoot call.req.target)) with
  | error ec => cases ec <;> rfl
  | ok content =>
    simp only [fileAnswer]
    split <;> rfl

/-- The answer to a request that does not get so far. The files have no part in it. -/
def plainAnswer (env : HttpEnv) (req : Request) (token : Bytes) : Response :=
  if req.target = ascii "/api/ws" ∧ req.method = .get then tokenResponse env req token
  else if req.method ≠ .get ∧ req.method ≠ .head then
    badRequest env req (ascii "Unknown HTTP-method")
  else badRequest env req (ascii "Illegal request-target")

theorem response_of_not_asksFile (h : ¬call.req.asksFile) :
    call.response env = plainAnswer env call.req (env.mint call.now₁ call.now₂) := by
  unfold Call.response handleRequest plainAnswer
  by_cases htoken : call.req.target = ascii "/api/ws" ∧ call.req.method = .get
  · simp only [if_pos htoken]
  by_cases hm : call.req.method ≠ .get ∧ call.req.method ≠ .head
  · simp only [if_neg htoken, if_pos hm]
  have hm' : call.req.method = .get ∨ call.req.method = .head := by
    by_contra hn
    exact hm (not_or.mp hn)
  have ht : legalTarget call.req.target = false := by
    rw [← Bool.not_eq_true]
    exact fun ht => h ⟨htoken, hm', ht⟩
  simp only [if_neg htoken, if_neg hm, ht, Bool.not_false, if_true]

/-- Whatever opening the file gives, something else would have given another response. -/
theorem exists_fileAnswer_ne (env : HttpEnv) (req : Request) (opened : Except OpenError Bytes) :
    ∃ opened', fileAnswer env req opened' ≠ fileAnswer env req opened := by
  have hstatus : (fileAnswer env req (.error .noSuchFile)).status = .notFound ∧
      (fileAnswer env req (.error (.other []))).status = .internalServerError := by
    simp [fileAnswer, notFound, serverError, errorResponse]
  by_cases h : fileAnswer env req opened = fileAnswer env req (.error .noSuchFile)
  · refine ⟨.error (.other []), fun he => ?_⟩
    rw [h] at he
    exact absurd (hstatus.2.symm.trans ((congrArg Response.status he).trans hstatus.1)) (by decide)
  · exact ⟨_, Ne.symm h⟩

/-- **The handler opens one path**, that of the target, if the request gets so far. -/
theorem opens_iff : call.Opens env path ↔
    call.req.asksFile ∧ path = cStr (filePath env.docRoot call.req.target) := by
  have hr (ha : call.req.asksFile) (files : FileSystem) : { call with files }.response env =
      fileAnswer env call.req (files (cStr (filePath env.docRoot call.req.target))) :=
    response_of_asksFile ha
  constructor
  · rintro ⟨opened, hne⟩
    by_cases ha : call.req.asksFile
    · refine ⟨ha, ?_⟩
      by_contra hp
      refine hne ((hr ha _).trans ?_)
      rw [response_of_asksFile ha, Function.update_of_ne (Ne.symm hp)]
    · have hp : { call with files := Function.update call.files path opened }.response env = _ :=
        response_of_not_asksFile ha
      exact absurd (hp.trans (response_of_not_asksFile ha).symm) hne
  · rintro ⟨ha, rfl⟩
    obtain ⟨opened, hne⟩ := exists_fileAnswer_ne env call.req
      (call.files (cStr (filePath env.docRoot call.req.target)))
    refine ⟨opened, ?_⟩
    rw [hr ha, response_of_asksFile ha, Function.update_self]
    exact hne

/-! ## Below the document root -/

/-- The segments that a target brings: its own, and `index.html` for a directory. -/
def ownSegments (target : Bytes) : List Bytes :=
  segments (chr '/') (chr '.') target ++
    if target.getLast? = some (chr '/') then [ascii "index.html"] else []

theorem legalTarget_iff {target : Bytes} : legalTarget target = true ↔
    target.head? = some (chr '/') ∧ ¬ascii ".." <:+: target := by
  unfold legalTarget
  rw [← find_eq_none_iff]
  cases target with
  | nil => simp
  | cons c target => simp [Option.isNone_iff_eq_none]

/-- The test of the target keeps `..` out of its segments. -/
theorem dots_notMem_ownSegments {target : Bytes} (h : legalTarget target = true) :
    [chr '.', chr '.'] ∉ ownSegments target := by
  have hdots : ascii ".." = [chr '.', chr '.'] := by decide
  have hindex : [chr '.', chr '.'] ≠ ascii "index.html" := by decide
  intro hm
  rcases List.mem_append.mp hm with hm | hm
  · exact (legalTarget_iff.mp h).2 (hdots ▸ infix_of_mem_segments hm)
  · split at hm
    · exact hindex (List.mem_singleton.mp hm)
    · cases hm

theorem pathCat_eq {docRoot : Bytes} (hroot : docRoot ≠ []) (target : Bytes) :
    pathCat docRoot target = trimSep (chr '/') docRoot ++ target := by
  simp only [pathCat, if_neg hroot, trimSep]

theorem segments_filePath {docRoot target : Bytes} (hroot : docRoot ≠ [])
    (h : legalTarget target = true) : segments (chr '/') (chr '.') (filePath docRoot target) =
      segments (chr '/') (chr '.') docRoot ++ ownSegments target := by
  have hcat : segments (chr '/') (chr '.') (trimSep (chr '/') docRoot ++ target) = _ :=
    segments_trimSep_append (legalTarget_iff.mp h).1
  unfold filePath ownSegments
  simp only [pathCat_eq hroot]
  split
  · rename_i hlast
    have hindex : segments (chr '/') (chr '.') (ascii "index.html") = [ascii "index.html"] :=
      segments_word (by decide) (by decide) (by decide)
    have hslash : (trimSep (chr '/') docRoot ++ target).getLast? = some (chr '/') := by
      rw [List.getLast?_append, hlast, Option.some_or]
    rw [segments_append_of_getLast? hslash, hcat, hindex, List.append_assoc]
  · rw [hcat, List.append_nil]

theorem isAbsolute_filePath {docRoot target : Bytes} (hroot : docRoot ≠ [])
    (h : legalTarget target = true) :
    isAbsolute (chr '/') (filePath docRoot target) = isAbsolute (chr '/') docRoot := by
  have hcat := isAbsolute_trimSep_append hroot (legalTarget_iff.mp h).1
  unfold filePath
  simp only [pathCat_eq hroot]
  split
  · have hne : trimSep (chr '/') docRoot ++ target ≠ [] := by
      rintro hnil
      rw [(List.append_eq_nil_iff.mp hnil).2] at h
      cases h
    exact (isAbsolute_append hne _).trans hcat
  · exact hcat

theorem cStr_eq {s : Bytes} (h : 0 ∉ s) : cStr s = s :=
  List.takeWhile_eq_self_iff.mpr fun _ hc => decide_eq_true fun hc0 => h (hc0 ▸ hc)

/-- A byte of the path is one of the document root, of the target or of `index.html`. -/
theorem notMem_filePath {docRoot target : Bytes} (hroot : 0 ∉ docRoot) (ht : 0 ∉ target) :
    0 ∉ filePath docRoot target := by
  have hindex : (0 : UInt8) ∉ ascii "index.html" := by decide
  have hcat : 0 ∉ pathCat docRoot target := by
    unfold pathCat
    split
    · exact ht
    · simp only [List.mem_append, not_or]
      refine ⟨?_, ht⟩
      split
      · exact fun hm => hroot (List.dropLast_subset _ hm)
      · exact hroot
  unfold filePath
  simp only
  split
  · simp only [List.mem_append, not_or]
    exact ⟨hcat, hindex⟩
  · exact hcat

/-- **Static files stay below the document root.** What the handler opens is a path whose normal
form is that of the document root and, behind it, the segments of the target; it is absolute if
and only if the document root is. No segment of the target cancels one of the document root: from
there on, what is left after each segment starts with the document root. -/
theorem staticFiles (hroot : env.docRoot ≠ []) (hnul : 0 ∉ call.req.target)
    (h : call.Opens env path) :
    let whole := filePath env.docRoot call.req.target
    (call.req.method = .get ∨ call.req.method = .head) ∧
    (0 ∉ env.docRoot → path = whole) ∧
    normalPath (chr '/') (chr '.') whole =
      normalPath (chr '/') (chr '.') env.docRoot ++ ownSegments call.req.target ∧
    isAbsolute (chr '/') whole = isAbsolute (chr '/') env.docRoot ∧
    ∀ taken, segments (chr '/') (chr '.') env.docRoot <+: taken →
      taken <+: segments (chr '/') (chr '.') whole →
        normalPath (chr '/') (chr '.') env.docRoot <+:
          resolve (chr '.') (isAbsolute (chr '/') whole) taken := by
  intro whole
  obtain ⟨⟨-, hm, ht⟩, rfl⟩ := opens_iff.mp h
  have hs : segments (chr '/') (chr '.') whole = _ := segments_filePath hroot ht
  have ha : isAbsolute (chr '/') whole = _ := isAbsolute_filePath hroot ht
  have hd := dots_notMem_ownSegments ht
  refine ⟨hm, fun hz => ?_, normalPath_of_segments hs ha hd, ha, fun taken hr htaken => ?_⟩
  · exact cStr_eq (notMem_filePath hz hnul)
  · rw [ha]
    exact normalPath_prefix hr (hs ▸ htaken) hd

/-- A file of the document root `.`, with repeated and trailing slashes. -/
theorem staticFiles_index :
    let env : HttpEnv :=
      { docRoot := ascii "./www/", beastVersion := [], mint := fun _ _ => [],
        beastVersion_value := by decide }
    normalPath (chr '/') (chr '.') (filePath env.docRoot (ascii "//a/./")) =
      normalPath (chr '/') (chr '.') env.docRoot ++ [ascii "a", ascii "index.html"] := by
  intro env
  let call : Call :=
    { req := { method := .get, target := ascii "//a/./" }, files := fun _ => .error .noSuchFile,
      now₁ := 0, now₂ := 0 }
  have h : call.Opens env (filePath env.docRoot (ascii "//a/./")) :=
    opens_iff.mpr ⟨⟨by decide, .inl rfl, by decide⟩, by decide⟩
  have hown : ownSegments (ascii "//a/./") = [ascii "a", ascii "index.html"] := by decide
  rw [← hown]
  exact (staticFiles (by decide) (by decide) h).2.2.1

/-! ## HEAD and GET -/

/-- The call with another method. -/
def Call.withMethod (call : Call) (method : Verb) : Call :=
  { call with req := { call.req with method } }

theorem asksFile_withMethod {method : Verb} (hm : method = .get ∨ method = .head)
    (htarget : call.req.target ≠ ascii "/api/ws") :
    (call.withMethod method).req.asksFile ↔ legalTarget call.req.target = true :=
  ⟨fun h => h.2.2, fun h => ⟨fun hn => htarget hn.1, hm, h⟩⟩

/-- An error is answered without a look at the method; a file is announced in the same way. -/
theorem fileAnswer_head (env : HttpEnv) (req : Request) (opened : Except OpenError Bytes) :
    { fileAnswer env { req with method := .head } opened with
      body := (fileAnswer env { req with method := .get } opened).body } =
        fileAnswer env { req with method := .get } opened := by
  cases opened with
  | error ec => cases ec <;> rfl
  | ok content =>
    simp only [fileAnswer, fileResponse, Response.setKeepAlive]
    split <;> rfl

/-- GET and HEAD ask for the file if the target is legal. -/
theorem response_withMethod {method : Verb} (hm : method = .get ∨ method = .head)
    (htarget : call.req.target ≠ ascii "/api/ws") : (call.withMethod method).response env =
      if legalTarget call.req.target = true then
        fileAnswer env { call.req with method }
          (call.files (cStr (filePath env.docRoot call.req.target)))
      else badRequest env call.req (ascii "Illegal request-target") := by
  have hasks := asksFile_withMethod hm htarget
  by_cases ht : legalTarget call.req.target = true
  · rw [if_pos ht, response_of_asksFile (hasks.mpr ht)]
    rfl
  · rw [if_neg ht, response_of_not_asksFile fun h => ht (hasks.mp h)]
    have htoken : ¬((call.withMethod method).req.target = ascii "/api/ws" ∧
        (call.withMethod method).req.method = .get) := fun hn => htarget hn.1
    have hverb : ¬((call.withMethod method).req.method ≠ .get ∧
        (call.withMethod method).req.method ≠ .head) := fun hn => hm.elim hn.1 hn.2
    rw [plainAnswer, if_neg htoken, if_neg hverb]
    rfl

/-- **HEAD is answered as GET, but for the body.** -/
theorem response_head (env : HttpEnv) (htarget : call.req.target ≠ ascii "/api/ws") :
    { (call.withMethod .head).response env with
      body := ((call.withMethod .get).response env).body } =
        (call.withMethod .get).response env := by
  rw [response_withMethod (.inl rfl) htarget, response_withMethod (.inr rfl) htarget]
  split
  · exact fileAnswer_head env call.req _
  · rfl

/-- Responses that differ in the body alone agree on all that does not depend on it. -/
theorem congr_of_body {β : Type} {res res' : Response} (h : { res with body := res'.body } = res')
    (f : Response → β) (hf : ∀ (res : Response) body, f { res with body } = f res) :
    f res = f res' := by
  rw [← hf res res'.body, h]

/-- A response with status 200 to a request that asks for a file tells the size of that file. -/
theorem exists_file_of_ok {req : Request} {opened : Except OpenError Bytes}
    (hok : (fileAnswer env req opened).status = .ok) : ∃ content, opened = .ok content ∧
      (fileAnswer env req opened).contentLength = some content.length := by
  cases opened with
  | error ec =>
    cases ec <;> simp [fileAnswer, notFound, serverError, errorResponse] at hok
  | ok content => exact ⟨content, rfl, by simp [fileAnswer, fileResponse]⟩

theorem plainAnswer_not_ok {req : Request}
    (h : ¬(req.target = ascii "/api/ws" ∧ req.method = .get)) (token : Bytes) :
    (plainAnswer env req token).status = .badRequest := by
  unfold plainAnswer
  rw [if_neg h]
  split <;> simp [badRequest, errorResponse]

/-- **HEAD agrees with GET.** But for the token, both get the same status and the same header. If
the status is 200, both have opened the same file and tell its size. -/
theorem headAgrees (env : HttpEnv) (call : Call) (htarget : call.req.target ≠ ascii "/api/ws") :
    let head := (call.withMethod .head).response env
    let get := (call.withMethod .get).response env
    head.status = get.status ∧ head.version = get.version ∧ head.server = get.server ∧
    head.contentType = get.contentType ∧ head.contentLength = get.contentLength ∧
    head.connection = get.connection ∧ head.keepAlive = get.keepAlive ∧
    head.needEof = get.needEof ∧
    (get.status = .ok → ∃ path content, (call.withMethod .head).Opens env path ∧
      (call.withMethod .get).Opens env path ∧ call.files path = .ok content ∧
      head.contentLength = some content.length ∧ get.contentLength = some content.length) := by
  intro head get
  have he : { head with body := get.body } = get := response_head env htarget
  have hlength := congr_of_body he (·.contentLength) fun _ _ => rfl
  refine ⟨congr_of_body he (·.status) fun _ _ => rfl, congr_of_body he (·.version) fun _ _ => rfl,
    congr_of_body he (·.server) fun _ _ => rfl, congr_of_body he (·.contentType) fun _ _ => rfl,
    hlength, congr_of_body he (·.connection) fun _ _ => rfl,
    congr_of_body he (·.keepAlive) fun _ _ => rfl, congr_of_body he (·.needEof) fun _ _ => rfl,
    fun hok => ?_⟩
  have hget : get = _ := response_withMethod (.inl rfl) htarget
  have hasks (method : Verb) (hm : method = .get ∨ method = .head) :=
    asksFile_withMethod hm htarget
  rw [hget] at hok
  split at hok
  · rename_i ht
    rw [if_pos ht] at hget
    obtain ⟨content, hfile, hsize⟩ := exists_file_of_ok hok
    rw [← hget] at hsize
    exact ⟨_, content, opens_iff.mpr ⟨(hasks .head (.inr rfl)).mpr ht, rfl⟩,
      opens_iff.mpr ⟨(hasks .get (.inl rfl)).mpr ht, rfl⟩, hfile, hlength.trans hsize, hsize⟩
  · simp [badRequest, errorResponse] at hok

/-- A file of two bytes. -/
theorem headAgrees_file :
    let call : Call :=
      { req := { target := ascii "/a.txt" }, files := fun _ => .ok (ascii "hi"), now₁ := 0,
        now₂ := 0 }
    let env : HttpEnv :=
      { docRoot := ascii "www", beastVersion := [], mint := fun _ _ => [],
        beastVersion_value := by decide }
    ((call.withMethod .head).response env).contentLength =
      ((call.withMethod .get).response env).contentLength := by
  intro call env
  exact (headAgrees env call (by decide)).2.2.2.2.1

/-! ## The type of a served resource -/

/-- The type of a resource that is served depends on the request alone. -/
theorem contentType_of_ok (hok : (call.response env).status = .ok) :
    (call.response env).contentType =
      if call.req.target = ascii "/api/ws" ∧ call.req.method = .get then ascii "application/json"
      else mimeType (filePath [] call.req.target) := by
  by_cases ha : call.req.asksFile
  · have hr : call.response env = _ := response_of_asksFile ha
    rw [hr] at hok ⊢
    obtain ⟨content, hfile, -⟩ := exists_file_of_ok hok
    rw [hfile, if_neg ha.1]
    simp [fileAnswer, fileResponse, mimeType_filePath ha.2.2]
  · have hr : call.response env = _ := response_of_not_asksFile ha
    rw [hr] at hok ⊢
    by_cases htoken : call.req.target = ascii "/api/ws" ∧ call.req.method = .get
    · simp [plainAnswer, htoken, tokenResponse]
    · cases hok.symm.trans (plainAnswer_not_ok htoken _)

/-- **The MIME type depends only on the file name**, and not on the case of letters. The type of
a served resource does not depend on the document root: two servers that serve a request, each from
its own, give the same type. -/
theorem mimeType_fileName :
    (∀ d f, chr '/' ∉ f → mimeType (d ++ ascii "/" ++ f) = mimeType f) ∧
    (∀ p q, List.Forall₂ SameLetter p q → mimeType p = mimeType q) ∧
    ∀ (env env' : HttpEnv) (call call' : Call), call.req = call'.req →
      (call.response env).status = .ok → (call'.response env').status = .ok →
        (call.response env).contentType = (call'.response env').contentType := by
  refine ⟨fun d f _ => ?_, fun p q h => mimeType_case h, fun env env' call call' hr hok hok' => ?_⟩
  · have hslash : ascii "/" = [chr '/'] := by decide
    rw [hslash, List.append_assoc, List.singleton_append, mimeType_name]
  · rw [contentType_of_ok hok, contentType_of_ok hok', hr]

end ChatServer
