import Glouglou.Libglouglou.Server.Registry

/-!
# A registration that fails

`user_add` counts the user, asks for a send buffer and links the user last.  Without a buffer it
goes through `user_del`, which tells the sender that it was removed and then unlinks a user that
is in no list.  The address of a new user is that of no linked one (`run_fresh`), so this is what
happens in every state of every run.
-/

open CInt Libsendbuf Transducer

namespace Libglouglou

variable {Pkt : Type}

/-- No linked user is at the address that the next one will have. -/
def Fresh (srv : GgServer) : Prop := ∀ e ∈ srv.entries, e.1 < srv.ptrs

/-- Whatever `user_find` returns, a callback that runs to its end keeps the addresses apart. -/
theorem step_fresh {env : Env Pkt} (hk : env.KeepsRegistry) {s t : GgServer} {i : Input}
    {out : List (Ev Pkt)} (hs : Fresh s) (h : Step env s i out t) : Fresh t := by
  cases ended h with
  | error => exact hs
  | @added remote buf hr hfind usr _ ev hadd =>
    by_cases ha : i.net.Allocates
    · obtain ⟨mem, hmem⟩ := Option.isSome_iff_exists.1 ha.2
      rw [user_add_linked env ha.1 hmem] at hadd
      cases hadd
      intro e he
      rcases List.mem_cons.1 he with rfl | he
      · exact Nat.lt_succ_self s.ptrs
      · exact Nat.lt_succ_of_lt (hs e he)
    · rw [user_add_failed env ha hs] at hadd
      cases hadd
  | removed hr hfind hlen hdel =>
    obtain ⟨hsub, hptrs, -⟩ := user_del_shrinks hdel
    intro e he
    rw [hptrs]
    exact hs e ((hsub.map _).subset he)
  | unhandled => exact hs
  | @handed remote buf hr usr hfind hlen handle_packet hh _ ev hloop =>
    have hobs := pktLoop_keeps env (fun srv => (srv.entries, srv.ptrs))
      (fun srv usr pkt => Prod.ext (hk _ hh srv usr pkt).1 (hk _ hh srv usr pkt).2.2)
      usr.ptr (i.fuel + 1) s buf (env.ggpkt_receive_header buf)
    rw [hloop, Prod.mk.injEq] at hobs
    unfold Fresh
    rw [hobs.1, hobs.2]
    exact hs

theorem run_fresh {env : Env Pkt} (hk : env.KeepsRegistry) {s : GgServer} {is : List Input}
    {es : List (Ev Pkt)} (h : Run (Step env) start is es s) : Fresh s :=
  h.invariant Fresh (fun _ _ _ _ hs hstep => step_fresh hk hs hstep)
    (by simp [Fresh, start, GgServer.entries])

/-- The effect is a datagram to this address. -/
def Ev.SentTo (a : SockaddrIn) : Ev Pkt → Prop
  | .sendto _ addr _ _ => addrcmp addr a = 0
  | _ => False

/-- `user_add` found no memory and left no trace: it returned `NULL`, the list and its count are
what they were, nothing was sent, and `cb_srv_receive` gets to its end. -/
def NoTrace (env : Env Pkt) (net : Net) (s : GgServer) (remote : SockaddrIn) : Prop :=
  (∃ t ev, user_add env net s remote = .ok (t, none, ev) ∧ t.user_list = s.user_list ∧
    t.user_count = s.user_count ∧ ∀ e ∈ ev, ¬ e.SentTo remote) ∧
  ∀ i : Input, i.net = net → (∃ buf, i.recvfrom = some (remote, buf)) →
    env.user_find s.user_list remote = none → ∃ out t, Step env s i out t

/-- **Failed registration.**  In no state of no run does a registration without memory leave no
trace: the sender is sent a closing datagram, and then `LIST_REMOVE` is applied to the user that
was never linked. -/
theorem failed_registration {env : Env Pkt} (hk : env.KeepsRegistry) {s : GgServer}
    {is : List Input} {es : List (Ev Pkt)} (h : Run (Step env) start is es s) {net : Net}
    (ha : ¬ net.Allocates) (remote : SockaddrIn) :
    ¬ NoTrace env net s remote ∧ LIST_REMOVE s.user_list (newUser s remote) = none ∧
      ∃ e : Ev Pkt, e.SentTo remote ∧ user_add env net s remote = .error [e] := by
  have hfresh := run_fresh hk h
  have hadd := user_add_failed env ha hfresh remote
  refine ⟨?_, ?_, ?_⟩
  · rintro ⟨⟨t, ev, hok, -⟩, -⟩
    rw [hadd] at hok
    cases hok
  · unfold LIST_REMOVE
    rw [if_neg]
    simp only [List.any_eq_true, decide_eq_true_eq, not_exists, not_and]
    intro v hv
    exact (hfresh (v.ptr, v.addr) (List.mem_map_of_mem hv)).ne
  · refine ⟨_, ?_, hadd⟩
    exact (addrcmp_eq_zero_iff _ _).2 (key_addrcpy ⟨0, 0, 0, 0⟩ remote)

/-- A machine without memory. -/
def noMemory : Net := ⟨false, none, fun _ _ => 0, fun _ _ _ => 0⟩

/-- The first probe of a server, on such a machine. -/
theorem failed_registration_first :
    ¬ NoTrace listEnv noMemory start ⟨2, 4430, 1, 0⟩ :=
  (failed_registration listEnv_keeps .nil (by decide) ⟨2, 4430, 1, 0⟩).1

/-- Without memory the first probe crashes the server. -/
theorem failed_registration_crash :
    ¬ NoTrace listEnv noMemory start ⟨2, 4430, 1, 0⟩ ∧
      user_add listEnv noMemory start ⟨2, 4430, 1, 0⟩ =
        .error [.sendto 0 ⟨2, 4430, 1, 0⟩ [] 0] := by
  refine ⟨?_, rfl⟩
  rintro ⟨⟨t, ev, hok, -⟩, -⟩
  cases hok

end Libglouglou
