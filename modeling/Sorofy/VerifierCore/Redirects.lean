import Sorofy.VerifierCore.Egress

/-!
# Following redirects

A server that a stranger names answers with redirects, and each is followed only once the URL it
leads to was checked.  `Reason` is what each event of such a run needs to have happened before it: a
request comes right after a check of its URL that found public addresses only, and goes to the URL
that was asked for or to the one that the last answer redirects to; and behind a check that found
anything else nothing happens any more.

`followed` says of every run that its events have their reasons, that it makes one request more than
redirects are followed at most, and that it returns nothing but the answer to its last request, and
no redirect.
-/

namespace Sorofy
namespace VerifierCore

open Foundation
open Foundation.Traced

/-- The URLs that were requested. -/
def requests (trace : List Event) : List String :=
  trace.filterMap fun e =>
    match e with
    | .requested url => some url
    | _ => none

/-- The response redirects. -/
def IsRedirect (resp : Response) : Prop :=
  300 ≤ resp.status ∧ resp.status < 400

instance (resp : Response) : Decidable (IsRedirect resp) :=
  inferInstanceAs (Decidable (_ ∧ _))

/-- The addresses are what the guard wants: there are some, and they are public. -/
def Public (addrs : List IpAddr) : Prop :=
  addrs ≠ [] ∧ ∀ addr ∈ addrs, isInternal addr = false

/-- No check found anything but public addresses. -/
def NoneRefused (trace : List Event) : Prop :=
  ∀ url host addrs, .checked url host addrs ∈ trace → Public addrs

section Runs

variable {programs : Programs} (world : World programs)

/-- The answer to a request for the URL after the trace. -/
def answer (before : List Event) (url : String) : Except String Response :=
  (world.get (before ++ [.requested url]) url).2

/-- The connections for it. -/
def dialed (before : List Event) (url : String) : List Event :=
  (world.get (before ++ [.requested url]) url).1.map (.dialed url)

/-- The answer to the request redirects to another URL. -/
def RedirectsTo (before : List Event) (url next : String) : Prop :=
  ∃ resp location, answer world before url = .ok resp ∧ IsRedirect resp ∧
    resp.location = some location ∧ resolveRedirect programs url location = .ok next

/-- The last thing that happened is that the host of the URL, which is an `http` or `https` URL, was
looked up, with public addresses only. -/
def JustChecked (programs : Programs) (before : List Event) (url : String) : Prop :=
  ∃ earlier host addrs, before = earlier ++ [.checked url host addrs] ∧
    guardHost programs url = some host ∧ Public addrs

/-- The URL is the one that was asked for, or the answer to the last request redirects to it. -/
def LedTo (start : String) (before : List Event) (url : String) : Prop :=
  (requests before = [] ∧ url = start) ∨
    ∃ earlier last since, before = earlier ++ .requested last :: since ∧ requests since = [] ∧
      RedirectsTo world earlier last url

/-- What an event needs to have happened before it. -/
def Reason (start : String) (before : List Event) : Event → Prop
  | .requested url => NoneRefused before ∧ JustChecked programs before url ∧
      LedTo world start before url
  | _ => NoneRefused before

/-- How a run goes from its start. -/
structure Followed (start : String) (result : Except VerifyError Response) (trace : List Event) :
    Prop where
  few : (requests trace).length ≤ maxRedirects + 1
  reasons : Justified (Reason world start) trace
  answered : ∀ resp, result = .ok resp → ∃ before last,
    trace = before ++ .requested last :: dialed world before last ∧
      answer world before last = .ok resp ∧ ¬ IsRedirect resp

/-- A run whose last answer was a redirect fails. -/
def StopsAtRedirect (result : Except VerifyError Response) (trace : List Event) : Prop :=
  ∀ before last since resp, trace = before ++ .requested last :: since → requests since = [] →
    answer world before last = .ok resp → IsRedirect resp → ∃ e, result = .error e

end Runs

/-! ## Traces -/

section Traces

variable {programs : Programs} {world : World programs} {start url : String}
  {t events : List Event}

theorem requests_append (t events : List Event) :
    requests (t ++ events) = requests t ++ requests events :=
  List.filterMap_append

theorem requests_dialed (before : List Event) : requests (dialed world before url) = [] := by
  rw [requests, List.filterMap_eq_nil_iff]
  intro e he
  obtain ⟨host, -, rfl⟩ := List.mem_map.1 he
  rfl

theorem NoneRefused.checked (h : NoneRefused t) {addrs : List IpAddr} (hpublic : Public addrs)
    (url host : String) : NoneRefused (t ++ [.checked url host addrs]) := by
  intro url' host' addrs' hmem
  rcases List.mem_append.1 hmem with hmem | hmem
  · exact h url' host' addrs' hmem
  · cases List.mem_singleton.1 hmem
    exact hpublic

theorem NoneRefused.requested (h : NoneRefused t) : NoneRefused (t ++ [.requested url]) := by
  intro url' host addrs hmem
  rcases List.mem_append.1 hmem with hmem | hmem
  · exact h url' host addrs hmem
  · cases List.mem_singleton.1 hmem

/-- Connections refuse nothing, and are justified where nothing was refused. -/
theorem justified_dialed (h : Justified (Reason world start) t) (hnone : NoneRefused t)
    (url : String) (hosts : List String) : Justified (Reason world start) (t ++ hosts.map (.dialed url)) ∧
      NoneRefused (t ++ hosts.map (.dialed url)) := by
  induction hosts using List.reverseRecOn with
  | nil => simpa using ⟨h, hnone⟩
  | append_singleton hosts host ih =>
    rw [List.map_append, List.map_singleton, ← List.append_assoc]
    refine ⟨justified_snoc.2 ⟨ih.1, ih.2⟩, fun url' host' addrs hmem => ?_⟩
    rcases List.mem_append.1 hmem with hmem | hmem
    · exact ih.2 url' host' addrs hmem
    · cases List.mem_singleton.1 hmem

theorem requests_append_cons_ne_nil (before after : List Event) :
    requests (before ++ .requested url :: after) ≠ [] := by
  rw [requests_append]
  exact fun h => absurd (List.append_eq_nil_iff.1 h).2 (by simp [requests])

/-- There is one last request. -/
theorem last_unique {before before' since since' : List Event} {last last' : String}
    (h : before ++ .requested last :: since = before' ++ .requested last' :: since')
    (hsince : requests since = []) (hsince' : requests since' = []) :
    before = before' ∧ last = last' := by
  rcases List.append_eq_append_iff.1 h with ⟨between, rfl, hrest⟩ | ⟨between, rfl, hrest⟩
  · cases between with
    | nil =>
      cases hrest
      exact ⟨(List.append_nil _).symm, rfl⟩
    | cons e between =>
      obtain ⟨-, rfl⟩ := List.cons.inj hrest
      exact absurd hsince (requests_append_cons_ne_nil between since')
  · cases between with
    | nil =>
      cases hrest
      exact ⟨List.append_nil _, rfl⟩
    | cons e between =>
      obtain ⟨-, rfl⟩ := List.cons.inj hrest
      exact absurd hsince' (requests_append_cons_ne_nil between since)

theorem LedTo.append (h : LedTo world start t url) (hnone : requests events = []) :
    LedTo world start (t ++ events) url := by
  rcases h with ⟨ht, rfl⟩ | ⟨earlier, last, since, rfl, hsince, hredirects⟩
  · exact Or.inl ⟨by rw [requests_append, ht, hnone]; rfl, rfl⟩
  · refine Or.inr ⟨earlier, last, since ++ events, by simp, ?_, hredirects⟩
    rw [requests_append, hsince, hnone]
    rfl

end Traces

/-! ## Runs -/

section Follow

variable {programs : Programs} {world : World programs} {start : String} {t : List Event}

/-- A request leaves itself and its connections, and returns the answer. -/
theorem ends_call (url : String) :
    Ends (call world url) t
      (fun resp t' => t' = t ++ [.requested url] ++ dialed world t url ∧
        answer world t url = .ok resp)
      (fun _ t' => t' = t ++ [.requested url] ++ dialed world t url) := by
  rw [call, ends_bind, ends_record, ends_bind, ends_observe, ends_bind, ends_record, ends_lift]
  exact ⟨fun resp hresp => ⟨rfl, mapError_eq_ok.1 hresp⟩, fun _ _ => rfl⟩

/-- What has happened when a URL is about to be checked, with so many tries left. -/
structure Pending (world : World programs) (start : String) (tries : ℕ) (t : List Event)
    (url : String) : Prop where
  few : (requests t).length + tries ≤ maxRedirects + 1
  reasons : Justified (Reason world start) t
  noneRefused : NoneRefused t
  ledTo : LedTo world start t url

theorem Pending.fails {tries : ℕ} {url : String} (h : Pending world start tries t url)
    (e : VerifyError) : Followed world start (.error e) t where
  few := (Nat.le_add_right _ _).trans h.few
  reasons := h.reasons
  answered resp hresp := by cases hresp

/-- **The requests for a URL and what it redirects to**, by induction on the tries that are left. -/
theorem followed_followRedirects (tries : ℕ) (current : String)
    (h : Pending world start tries t current) :
    Ends (followRedirects world tries current) t (fun resp => Followed world start (.ok resp))
      (fun e => Followed world start (.error e)) := by
  induction tries generalizing current t with
  | zero =>
    rw [followRedirects, ends_throw]
    exact h.fails _
  | succ tries ih =>
    unfold followRedirects
    refine (ends_guardPublicUrl current).bind ?_ ?_
    · rintro e _ (rfl | ⟨host, addrs, rfl⟩)
      · exact h.fails e
      · refine ⟨?_, justified_snoc.2 ⟨h.reasons, h.noneRefused⟩, fun resp hresp => by cases hresp⟩
        rw [requests_append]
        exact (Nat.le_add_right _ _).trans (by simpa [requests] using h.few)
    rintro _ _ ⟨host, addrs, hguard, hne, hpublic, rfl⟩
    have hnone := h.noneRefused.checked ⟨hne, hpublic⟩ current host
    have hchecked : Justified (Reason world start) (t ++ [.checked current host addrs]) :=
      justified_snoc.2 ⟨h.reasons, h.noneRefused⟩
    have hrequested : Justified (Reason world start)
        (t ++ [.checked current host addrs] ++ [.requested current]) :=
      justified_snoc.2 ⟨hchecked, hnone, ⟨t, host, addrs, rfl, hguard, hne, hpublic⟩,
        h.ledTo.append rfl⟩
    obtain ⟨hdialed, hnone'⟩ := justified_dialed hrequested hnone.requested current
      (world.get (t ++ [.checked current host addrs] ++ [.requested current]) current).1
    have hfew : (requests (t ++ [.checked current host addrs] ++ [.requested current] ++
        dialed world (t ++ [.checked current host addrs]) current)).length + tries ≤
          maxRedirects + 1 := by
      have hbudget := h.few
      rw [requests_append, requests_append, requests_append, requests_dialed]
      simp only [requests, List.filterMap_cons, List.filterMap_nil, List.append_nil,
        List.length_append, List.length_singleton]
      simp only [requests] at hbudget
      omega
    have hfails : ∀ e, Followed world start (.error e) (t ++ [.checked current host addrs] ++
        [.requested current] ++ dialed world (t ++ [.checked current host addrs]) current) :=
      fun e => ⟨(Nat.le_add_right _ _).trans hfew, hdialed, fun resp hresp => by cases hresp⟩
    refine (ends_call current).bind ?_ ?_
    · rintro e _ rfl
      exact hfails e
    rintro resp _ ⟨rfl, hanswer⟩
    split
    · rename_i hredirect
      refine Ends.lift_bind hfails fun location hlocation => ?_
      refine Ends.lift_bind hfails fun next hnext => ?_
      refine ih next ⟨hfew, hdialed, hnone', Or.inr ⟨t ++ [.checked current host addrs], current,
        dialed world (t ++ [.checked current host addrs]) current, by simp, requests_dialed _,
        resp, location, hanswer, hredirect, okOr_eq_ok.1 hlocation, hnext⟩⟩
    · rename_i hfinal
      rw [ends_pure]
      refine ⟨(Nat.le_add_right _ _).trans hfew, hdialed, fun resp' hresp => ?_⟩
      cases hresp
      exact ⟨t ++ [.checked current host addrs], current, by simp, hanswer, hfinal⟩

theorem Followed.stopsAtRedirect {result : Except VerifyError Response}
    (h : Followed world start result t) : StopsAtRedirect world result t := by
  intro before last since resp ht hsince hanswer hredirect
  cases result with
  | error e => exact ⟨e, rfl⟩
  | ok resp' =>
    obtain ⟨before', last', ht', hanswer', hnot⟩ := h.answered resp' rfl
    obtain ⟨rfl, rfl⟩ := last_unique (ht.symm.trans ht') hsince (requests_dialed before')
    cases hanswer.symm.trans hanswer'
    exact absurd hredirect hnot

/-- **Every run is followed as it should be**, whatever resolves the hosts and answers, and stops
with an error at a redirect that it does not follow. -/
theorem followed (world : World programs) (start : String) :
    Followed world start ((getWithGuardedRedirects world start).run []).1
        (getWithGuardedRedirects world start).trace ∧
      StopsAtRedirect world ((getWithGuardedRedirects world start).run []).1
        (getWithGuardedRedirects world start).trace := by
  have hpending : Pending world start (maxRedirects + 1) [] start :=
    ⟨by simp [requests], justified_nil, fun _ _ _ hmem => absurd hmem List.not_mem_nil,
      Or.inl ⟨rfl, rfl⟩⟩
  have hrun := ends_run.1 (followed_followRedirects (maxRedirects + 1) start hpending)
  exact ⟨hrun, hrun.stopsAtRedirect⟩

end Follow

end VerifierCore
end Sorofy
