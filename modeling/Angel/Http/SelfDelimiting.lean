import Angel.Http.FramedPaths

/-!
The responses of whole runs. The calls of the message handler on its service are
written down with the state they meet; each of them that answers does so with a
response that delimits itself exactly under the condition of its path.
-/

namespace Angel.Http

open Util Lib

section Service

variable {ρ : Type} (service : Service ρ)

/-- The calls of `message_handler`. -/
inductive ServiceCall where
  | expect (req : Request)
  | processRequest (req : Request)
  | error (code : StatusCode)

/-- A service that writes down its calls, each with the environment it meets. -/
def Service.logged : Service (ρ × List (ρ × ServiceCall)) where
  isConnected env := service.isConnected env.1
  expect env req :=
    (((service.expect env.1 req).1, env.2 ++ [(env.1, .expect req)]), (service.expect env.1 req).2)
  processRequest env req := (service.processRequest env.1 req).map fun r =>
    ((r.1, env.2 ++ [(env.1, .processRequest req)]), r.2)
  error env code := (service.error env.1 code, env.2 ++ [(env.1, .error code)])

/-- The calls of one pass of the loop. -/
def Service.passCalls (s : Session ρ) : List (ρ × ServiceCall) :=
  match service.logged.pass ⟨(s.env, []), s.req, s.buf⟩ with
  | .again t => t.env.2
  | .done (some t) => t.env.2
  | .done none => []

/-- The method of the request that a call of a pass answers. The request line
that is found wrong has none. -/
def Session.method (s : Session ρ) : ServiceCall → Option Method
  | .expect req => some req.reqMethod
  | .processRequest req => some req.reqMethod
  | .error _ => if s.req.state = .parseLine then none else some s.req.reqMethod

end Service

section Replies

variable {W : Type} (sys : System W) (server : Server W)

/-- Calls on the response of the connection: the response object and the world
behind them, and the outputs. -/
def ServerState.response (env : ServerState W) (calls : List Call) :
    Response × W × List Output :=
  ((env.res.execAll sys.order (sys.now env.world) calls).1, env.world,
    (env.res.execAll sys.order (sys.now env.world) calls).2)

/-- What a call on the server does. -/
def Server.respond (env : ServerState W) : ServiceCall → Option (Response × W × List Output)
  | .expect req =>
      match req.headers.find (ascii "Expect") with
      | none => some (env.res, env.world, [])
      | some value =>
          if equalCase value (ascii "100-continue") then some (env.res, env.world, [])
          else some (env.response sys [.setStatusCode .expectationFailed, .sendErr])
  | .processRequest req =>
      (server.answer sys env.res env.world req).map fun r => (r.1, r.2.1, r.2.2.2)
  | .error code => some (env.response sys [.setStatusCode code,
      .addHeader (ascii "Connection") (ascii "close"), .sendErr, .connClose])

/-- A call of the message handler, the state it meets, and the method of the
request it answers. -/
structure Reply (W : Type) where
  env : ServerState W
  method : Option Method
  call : ServiceCall

/-- The reply, if there is one, delimits itself. -/
def Reply.SelfDelimiting (reply : Reply W) : Prop :=
  ∀ res w out, server.respond sys reply.env reply.call = some (res, w, out) →
    Http.SelfDelimiting (sys.openFiles w) reply.method out

/-- The condition under which it does. -/
def Reply.Delimits (reply : Reply W) : Prop :=
  match reply.call with
  | .expect req =>
      match req.headers.find (ascii "Expect") with
      | none => True
      | some value => equalCase value (ascii "100-continue") = true ∨ reply.method ≠ some .head
  | .processRequest req => server.Delimits sys reply.env.res reply.env.world req
  | .error _ => reply.method ≠ some .head

/-- The reply enters no line end in its `Location`, the one header field the server makes of text
from the request. -/
def Reply.OnOneLine (reply : Reply W) : Prop :=
  match reply.call with
  | .processRequest req => server.PlainLocation req
  | _ => True

/-- The replies of one call of `message_handler`. -/
def Server.callReplies (s : Session (ServerState W)) : List (Reply W) :=
  if !(server.service sys).isConnected s.env then []
  else ((server.service sys).visited (2 * s.buf.length + 2) s).flatMap fun t =>
    ((server.service sys).passCalls t).map fun call => ⟨call.1, t.method call.2, call.2⟩

/-- The replies of a run, in their order. -/
def Server.replies : Option (Session (ServerState W)) → List ServerEvent → List (Reply W)
  | none, _ => []
  | some _, [] => []
  | some s, .segment bytes :: events =>
      server.callReplies sys { s with buf := s.buf ++ bytes } ++
        Server.replies (server.step sys (some s) (.segment bytes)) events
  | some s, .connection event :: events =>
      Server.replies (server.step sys (some s) (.connection event)) events

/-- The outputs of a reply, on its connection. -/
def ServerState.performAll (env : ServerState W) (r : Response × W × List Output) :
    ServerState W :=
  r.2.2.foldl (ServerState.perform sys) { env with res := r.1, world := r.2.1 }

theorem apply_performs (env : ServerState W) (calls : List Call) :
    env.apply sys calls = env.performAll sys (env.response sys calls) := rfl

theorem service_expect_performs (env : ServerState W) (req : Request) :
    ∃ r, server.respond sys env (.expect req) = some r ∧
      ((server.service sys).expect env req).1 = env.performAll sys r := by
  unfold Server.respond Server.service
  dsimp only
  cases req.headers.find (ascii "Expect") with
  | none => exact ⟨_, rfl, rfl⟩
  | some value =>
      dsimp only
      by_cases hcontinue : equalCase value (ascii "100-continue")
      · rw [if_pos hcontinue, if_pos hcontinue]
        exact ⟨_, rfl, rfl⟩
      · rw [if_neg hcontinue, if_neg hcontinue]
        dsimp only
        rw [apply_performs]
        exact ⟨_, rfl, rfl⟩

theorem service_process_performs {env env' : ServerState W} {req req' : Request}
    (h : (server.service sys).processRequest env req = some (env', req')) :
    ∃ r, server.respond sys env (.processRequest req) = some r ∧ env' = env.performAll sys r := by
  obtain ⟨res, w, out, hanswer, rfl⟩ := service_process_cases sys server h
  refine ⟨(res, w, out), ?_, rfl⟩
  rw [Server.respond, hanswer]
  rfl

theorem service_error_performs (env : ServerState W) (code : StatusCode) :
    ∃ r, server.respond sys env (.error code) = some r ∧
      (server.service sys).error env code = env.performAll sys r := by
  unfold Server.respond Server.service
  dsimp only
  rw [apply_performs]
  exact ⟨_, rfl, rfl⟩

private theorem perform_res (env : ServerState W) (output : Output) :
    (env.perform sys output).res = env.res := by
  cases output <;> rfl

theorem performAll_res (env : ServerState W) (r : Response × W × List Output) :
    (env.performAll sys r).res = r.1 := by
  have hperform : ∀ (out : List Output) (env : ServerState W),
      (out.foldl (ServerState.perform sys) env).res = env.res := by
    intro out
    induction out with
    | nil => exact fun _ => rfl
    | cons output out ih =>
        intro env
        rw [List.foldl_cons, ih, perform_res]
  rw [ServerState.performAll, hperform]

variable {sys server}

theorem framed_response {env : ServerState W} {calls : List Call} {method : Option Method}
    {P : Prop} (h : Framed (sys.openFiles env.world) method
      (env.res.execAll sys.order (sys.now env.world) calls) P)
    {res : Response} {w : W} {out : List Output}
    (hresponse : env.response sys calls = (res, w, out)) :
    Framed (sys.openFiles w) method (res, out) P := by
  cases hresponse
  exact h

/-- A call that is written down has met an unframed response object and has
returned. -/
def Logged (sys : System W) (server : Server W)
    (env : ServerState W × List (ServerState W × ServiceCall)) : Prop :=
  env.1.res.Unframed ∧ ∀ call ∈ env.2,
    call.1.res.Unframed ∧ ∃ r, server.respond sys call.1 call.2 = some r

private theorem logged_append {env : ServerState W × List (ServerState W × ServiceCall)}
    (h : Logged sys server env) {call : ServiceCall} {r : Response × W × List Output}
    (hrespond : server.respond sys env.1 call = some r) {env' : ServerState W}
    (hunframed : env'.res.Unframed) : Logged sys server (env', env.2 ++ [(env.1, call)]) := by
  refine ⟨hunframed, ?_⟩
  intro other hother
  rcases List.mem_append.mp hother with hold | hnew
  · exact h.2 other hold
  · rw [List.mem_singleton.mp hnew]
    exact ⟨h.1, r, hrespond⟩

private theorem logged_keeps (hkeeps : (server.service sys).Keeps fun env => env.res.Unframed) :
    (server.service sys).logged.Keeps (Logged sys server) where
  expect := by
    intro env henv req
    obtain ⟨r, hrespond, _⟩ := service_expect_performs sys server env.1 req
    exact logged_append henv hrespond (hkeeps.expect henv.1 req)
  processRequest := by
    intro env env' req req' henv hprocess
    obtain ⟨⟨next, after⟩, hnext, heq⟩ := Option.map_eq_some_iff.mp hprocess
    cases heq
    obtain ⟨r, hrespond, _⟩ := service_process_performs sys server hnext
    exact logged_append henv hrespond (hkeeps.processRequest henv.1 hnext)
  error := by
    intro env henv code
    obtain ⟨r, hrespond, _⟩ := service_error_performs sys server env.1 code
    exact logged_append henv hrespond (hkeeps.error henv.1 code)

theorem passCalls_logged (hkeeps : (server.service sys).Keeps fun env => env.res.Unframed)
    {s : Session (ServerState W)} (hs : s.env.res.Unframed) :
    ∀ call ∈ (server.service sys).passCalls s,
      call.1.res.Unframed ∧ ∃ r, server.respond sys call.1 call.2 = some r := by
  have hstart : Logged sys server (s.env, []) :=
    ⟨hs, fun _ hmem => absurd hmem List.not_mem_nil⟩
  have hpass := (logged_keeps hkeeps).pass (s := ⟨(s.env, []), s.req, s.buf⟩) hstart
  unfold Service.passCalls
  rcases hpass with ⟨t, hagain, ht⟩ | ⟨r, hdone, hr⟩
  · rw [hagain]
    exact ht.2
  · rw [hdone]
    cases r with
    | none => exact fun _ hmem => absurd hmem List.not_mem_nil
    | some t => exact (hr t rfl).2

theorem receive_unframed (hkeeps : (server.service sys).Keeps fun env => env.res.Unframed)
    {s t : Session (ServerState W)} (hs : s.env.res.Unframed) {event : ServerEvent}
    (hstep : server.step sys (some s) event = some t) : t.env.res.Unframed := by
  cases event with
  | segment bytes =>
      have hnext : Response.Unframed (Session.env { s with buf := s.buf ++ bytes }).res := hs
      exact hkeeps.messageHandler hnext hstep
  | connection event =>
      cases hstep
      exact hs

variable (horder : ∀ headers, (sys.order headers).Perm headers) (hsys : sys.Plain)
  (hserver : server.LeavesFraming)

include horder hsys hserver

theorem respond_framed {env : ServerState W} (henv : env.res.Unframed) {call : ServiceCall}
    {method : Option Method} (hmethod : ∀ req, call = .processRequest req →
      method = some req.reqMethod)
    {res : Response} {w : W} {out : List Output}
    (hrespond : server.respond sys env call = some (res, w, out)) :
    FramedWhen (Reply.OnOneLine server ⟨env, method, call⟩) (sys.openFiles w) method (res, out)
      (Reply.Delimits sys server ⟨env, method, call⟩) := by
  have hsilent : Framed (sys.openFiles env.world) method (env.res, []) True := framed_silent henv
  unfold Server.respond at hrespond
  unfold Reply.Delimits
  cases call with
  | expect req =>
      dsimp only at hrespond ⊢
      cases hfind : req.headers.find (ascii "Expect") with
      | none =>
          rw [hfind] at hrespond
          cases hrespond
          exact hsilent.when _
      | some value =>
          rw [hfind] at hrespond
          dsimp only at hrespond ⊢
          split at hrespond
          · next hcontinue =>
              cases hrespond
              exact (hsilent.congr (iff_of_true trivial (Or.inl hcontinue))).when _
          · next hrefused =>
              refine (framed_response ?_ (Option.some.inj hrespond)).when _
              rw [execAll_setStatusCode]
              apply (framed_sendErr horder
                (Response.Declares.setStatusCode henv .expectationFailed)).congr
              rw [or_iff_right hrefused]
  | processRequest req =>
      rw [hmethod req rfl]
      obtain ⟨answer, hanswer, heq⟩ := Option.map_eq_some_iff.mp hrespond
      cases heq
      exact answer_framed horder hsys hserver henv hanswer
  | error code =>
      refine (framed_response ?_ (Option.some.inj hrespond)).when _
      have hhead : Response.Declares ((env.res.setStatusCode code).addHeader (ascii "Connection")
          (ascii "close")) code none :=
        (Response.Declares.setStatusCode henv code).addHeader (by decide)
          (plainEntry_of_lineByte (by decide) (by decide))
      rw [execAll_setStatusCode, execAll_addHeader]
      exact (framed_sendErr horder hhead).close

theorem service_keeps_unframed : (server.service sys).Keeps fun env => env.res.Unframed where
  expect := by
    intro env henv req
    obtain ⟨⟨res, w, out⟩, hrespond, hperforms⟩ := service_expect_performs sys server env req
    rw [hperforms, performAll_res]
    have hmethod : ∀ r, .expect req = ServiceCall.processRequest r → none = some r.reqMethod := by
      rintro r ⟨⟩
    exact (respond_framed horder hsys hserver henv hmethod hrespond).unframed
  processRequest := by
    intro env env' req req' henv hprocess
    obtain ⟨⟨res, w, out⟩, hrespond, rfl⟩ := service_process_performs sys server hprocess
    rw [performAll_res]
    have hmethod : ∀ r, .processRequest req = ServiceCall.processRequest r →
        some req.reqMethod = some r.reqMethod := by
      rintro r ⟨⟩
      rfl
    exact (respond_framed horder hsys hserver henv hmethod hrespond).unframed
  error := by
    intro env henv code
    obtain ⟨⟨res, w, out⟩, hrespond, hperforms⟩ := service_error_performs sys server env code
    rw [hperforms, performAll_res]
    have hmethod : ∀ r, .error code = ServiceCall.processRequest r → none = some r.reqMethod := by
      rintro r ⟨⟩
    exact (respond_framed horder hsys hserver henv hmethod hrespond).unframed

private theorem callReplies_settled {s : Session (ServerState W)} (hs : s.env.res.Unframed) :
    ∀ reply ∈ server.callReplies sys s,
      (reply.Delimits sys server → reply.SelfDelimiting sys server) ∧
        (reply.OnOneLine server → reply.SelfDelimiting sys server → reply.Delimits sys server) := by
  intro reply hreply
  have hkeeps := service_keeps_unframed horder hsys hserver
  unfold Server.callReplies at hreply
  split at hreply
  · exact absurd hreply List.not_mem_nil
  obtain ⟨t, ht, hcalls⟩ := List.mem_flatMap.mp hreply
  obtain ⟨⟨env, call⟩, hcall, rfl⟩ := List.mem_map.mp hcalls
  have hunframed := hkeeps.visited _ hs t ht
  obtain ⟨henv, ⟨res, w, out⟩, hrespond⟩ := passCalls_logged hkeeps hunframed _ hcall
  have hmethod : ∀ req, call = .processRequest req → t.method call = some req.reqMethod := by
    rintro req rfl
    rfl
  have hframed := respond_framed horder hsys hserver henv hmethod hrespond
  constructor
  · intro h res' w' out' hrespond'
    cases hrespond.symm.trans hrespond'
    exact hframed.enough h
  · intro hline h
    exact hframed.needed hline (h res w out hrespond)

/-- Every reply of every run, whatever bytes arrive and however they are cut, delimits itself if
its condition holds, and only then unless a line end comes into its `Location`. -/
theorem replies_self_delimiting_iff (s : Session (ServerState W)) (hs : s.env.res.Unframed)
    (events : List ServerEvent) :
    ∀ reply ∈ server.replies sys (some s) events,
      (reply.Delimits sys server → reply.SelfDelimiting sys server) ∧
        (reply.OnOneLine server → reply.SelfDelimiting sys server → reply.Delimits sys server) := by
  have hkeeps := service_keeps_unframed horder hsys hserver
  induction events generalizing s with
  | nil => exact fun _ hmem => absurd hmem List.not_mem_nil
  | cons event events ih =>
      have hrest : ∀ reply ∈ server.replies sys (server.step sys (some s) event) events,
          (reply.Delimits sys server → reply.SelfDelimiting sys server) ∧
            (reply.OnOneLine server → reply.SelfDelimiting sys server →
              reply.Delimits sys server) := by
        cases hstep : server.step sys (some s) event with
        | none =>
            rw [Server.replies]
            exact fun _ hmem => absurd hmem List.not_mem_nil
        | some t => exact ih t (receive_unframed hkeeps hs hstep)
      cases event with
      | segment bytes =>
          rw [Server.replies, List.forall_mem_append]
          refine ⟨?_, hrest⟩
          apply callReplies_settled horder hsys hserver
          exact hs
      | connection event =>
          rw [Server.replies]
          exact hrest

end Replies

/-- A server with a page that is empty. -/
def Server.pages : Server Unit :=
  ((Server.create (ascii ".")).get (ascii "/hello") fun w _ =>
    (w, [.setStatusCode .ok, .setContent (ascii "hello, client") (ascii "text/plain")])).get
    (ascii "/empty") fun w _ =>
      (w, [.setStatusCode .ok, .setContent [] (ascii "text/plain")])

theorem Server.pages_leavesFraming : Server.pages.LeavesFraming := by
  have hpage : ∀ body, Http.LeavesFraming
      [.setStatusCode .ok, .setContent body (ascii "text/plain")] := by
    intro body
    refine ⟨⟨.sent, rfl, by decide⟩, ?_, ?_⟩
    · intro field value hmem
      simp at hmem
    · intro content type hmem
      obtain ⟨-, rfl⟩ : content = body ∧ type = ascii "text/plain" := by simpa using hmem
      exact not_crlf_of_lineByte (by decide)
  apply Server.LeavesFraming.route
  · apply Server.LeavesFraming.route (.create _)
    exact fun _ _ => hpage _
  · exact fun _ _ => hpage _

theorem System.empty_plain : System.empty.Plain where
  mimeType _ := not_crlf_of_lineByte
    (show ∀ b ∈ ascii "application/octet-stream", LineByte b by decide)
  boundary _ := not_crlf_of_lineByte (show ∀ b ∈ ascii "----=_Part_1", LineByte b by decide)
  hexDigest _ _ := not_crlf_nil

/-- A page, the empty page and a missing file. -/
def ServerEvent.pageRequests : List ServerEvent :=
  [.segment (ascii "GET /hello HTTP/1.1\r\nHost: a\r\n\r\n"),
    .segment (ascii "GET /empty HTTP/1.1\r\nHost: a\r\n\r\n"),
    .segment (ascii "HEAD /none HTTP/1.1\r\nHost: a\r\n\r\n")]

theorem replies_self_delimiting_iff_pages :
    (Server.pages.replies .empty (some .sample) ServerEvent.pageRequests).length = 6 ∧
      ∀ reply ∈ Server.pages.replies .empty (some .sample) ServerEvent.pageRequests,
        (reply.Delimits .empty Server.pages → reply.SelfDelimiting .empty Server.pages) ∧
          (reply.OnOneLine Server.pages → reply.SelfDelimiting .empty Server.pages →
            reply.Delimits .empty Server.pages) := by
  refine ⟨by decide +kernel, ?_⟩
  apply replies_self_delimiting_iff
  · exact fun _ => List.Perm.refl _
  · exact System.empty_plain
  · exact Server.pages_leavesFraming
  · exact ⟨rfl, List.Pairwise.nil, fun _ hmem => absurd hmem List.not_mem_nil, rfl, rfl, rfl, rfl⟩

/-- A header block on its own, line by line, without a word about its body. -/
def undelimited : List Output → Bool
  | [.head code headers, .send bytes] =>
      bytes = headBlock code headers && !decide code.Bodyless &&
        (headers.find (ascii "Transfer-Encoding")).isNone &&
        (headers.find (ascii "Content-Length")).isNone &&
        decide (headers.Pairwise fun first second => toLower first.1 ≠ toLower second.1) &&
        headers.all fun entry => entry.1.all (fun b => decide (LineByte b) && b ≠ COLON) &&
          entry.2.all fun b => LineByte b
  | _ => false

private theorem not_selfDelimiting {files : Nat → Bytes} {method : Option Method}
    {out : List Output}
    (hmethod : method ≠ some .head) (h : undelimited out = true) :
    ¬ SelfDelimiting files method out := by
  unfold undelimited at h
  split at h
  case h_2 => cases h
  case h_1 code headers bytes =>
      simp only [Bool.and_eq_true, decide_eq_true_eq, Bool.not_eq_true', decide_eq_false_iff_not,
        Option.isNone_iff_eq_none, List.all_eq_true] at h
      obtain ⟨⟨⟨⟨⟨rfl, hcode⟩, hencoding⟩, hlength⟩, hdistinct⟩, hentries⟩ := h
      have hplain : Headers.Plain headers := by
        intro entry hentry
        obtain ⟨hname, hvalue⟩ := hentries entry hentry
        exact plainEntry_of_lineByte hname hvalue
      intro hdelimits
      have hbytes : wireBytes files [.head code headers, .send (headBlock code headers)] =
          headBlock code headers ++ [] := by
        simp [wireBytes, Output.wire]
      have hdelimited := hdelimits code headers List.mem_cons_self
      rw [hbytes, delimited_headBlock_iff hdistinct hplain, hencoding, hlength] at hdelimited
      simp [hmethod, hcode] at hdelimited

/-- The empty page is answered, and the connection kept, without a length. -/
theorem empty_page_undelimited :
    ∃ reply ∈ Server.pages.replies .empty (some .sample)
        [.segment (ascii "GET /empty HTTP/1.1\r\nHost: a\r\n\r\n")],
      reply.method = some .get ∧ reply.env.conn.state = .connected ∧
        ¬ reply.SelfDelimiting .empty Server.pages := by
  have hfound : ∃ reply ∈ Server.pages.replies .empty (some .sample)
      [.segment (ascii "GET /empty HTTP/1.1\r\nHost: a\r\n\r\n")],
      (reply.method = some .get ∧ reply.env.conn.state = .connected) ∧
        ∃ r ∈ (Server.pages.respond .empty reply.env reply.call).toList,
          undelimited r.2.2 = true := by
    decide +kernel
  obtain ⟨reply, hreply, ⟨hmethod, hconnected⟩, ⟨res, w, out⟩, hrespond, hundelimited⟩ := hfound
  refine ⟨reply, hreply, hmethod, hconnected, ?_⟩
  intro h
  have hdelimits := h res w out (Option.mem_toList.mp hrespond)
  exact not_selfDelimiting (by simp [hmethod]) hundelimited hdelimits

end Angel.Http
