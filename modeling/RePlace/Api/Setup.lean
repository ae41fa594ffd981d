import RePlace.Api.Auth
import RePlace.Http.DistinctPaths
import RePlace.Http.FinalizeRoom

/-!
# The routes of the auth API

`api::auth::setup` registers the endpoints of `api/auth.hpp`. No two of its paths
are the same, so `finalize` and `handle_request` serve the four routes exactly.
-/

namespace RePlace.Api.Auth

open Bytes (lit)
open Http (Request Response Router RequestHandler Capacity DistinctPaths slash)
open Http.RequestHandler (entries table finalize tableNodes routeOf routed notFound)

/-- `HTTP_GET`. -/
def httpGet : ℤ := 1

/-- `HTTP_POST`. -/
def httpPost : ℤ := 3

/-- What a route of the API executes. -/
abbrev Handler := Request → Response → Endpoint

variable {δ : Type}

/-! ## The routes -/

def loginRoute (authService : δ) : Router δ Handler where
  method := httpPost
  path := .lit "/api/auth/login"
  data := authService
  endpoint := postLogin

def registerRoute (authService : δ) : Router δ Handler where
  method := httpPost
  path := .lit "/api/auth/register"
  data := authService
  endpoint := postRegister

def logoutRoute (authService : δ) : Router δ Handler where
  method := httpPost
  path := .lit "/api/auth/logout"
  data := authService
  endpoint := postLogout

def userRoute (authService : δ) : Router δ Handler where
  method := httpGet
  path := .lit "/api/user"
  data := authService
  endpoint := getUser

/-- `api::auth::setup`. -/
def setup (h : RequestHandler δ Handler) (authService : δ) : RequestHandler δ Handler :=
  (((h.addRoute (loginRoute authService)).addRoute (registerRoute authService)).addRoute
    (logoutRoute authService)).addRoute (userRoute authService)

/-- The routes of the API in the order of their registration. -/
def routes (authService : δ) : List (Router δ Handler) :=
  [loginRoute authService, registerRoute authService, logoutRoute authService,
    userRoute authService]

theorem setup_eq (authService : δ) : setup {} authService = table (routes authService) := rfl

/-- Every path begins with `/api/`, takes no parameters, and has one method. -/
theorem distinctPaths_routes (authService : δ) : DistinctPaths (routes authService) where
  distinct := show (List.map Router.key (routes ())).Nodup by decide
  canonical r hr := by
    have hmem : r.path ∈ (routes ()).map Router.path := List.mem_map_of_mem hr
    have hall : ∀ p ∈ (routes ()).map Router.path, p.bytes.head? = some slash ∧
        2 ≤ p.bytes.length ∧ p.bytes.getLast? ≠ some slash := by decide
    obtain ⟨hhead, hlength, hlast⟩ := hall _ hmem
    exact ⟨hhead, hlength, hlast⟩
  plain r hr := by
    have hmem : r.path ∈ (routes ()).map Router.path := List.mem_map_of_mem hr
    have hall : ∀ p ∈ (routes ()).map Router.path,
        ∀ s ∈ Http.routeSegments p, Http.isParam s = false := by decide
    exact hall _ hmem
  byte r hr := by
    have hmem : r.method ∈ (routes ()).map Router.method := List.mem_map_of_mem hr
    have hall : ∀ m ∈ (routes ()).map Router.method, 0 ≤ m ∧ m < 256 := by decide
    exact hall _ hmem
  paths := show (List.map Router.path (routes ())).Nodup by decide

/-! ## Serving them -/

/-- A request asks for a route: with its method, and with its path behind the first
byte of the URI, where a slash may follow. -/
def Asks (req : Request) (r : Router δ Handler) : Prop :=
  r.method = req.method.toNat ∧
    (req.uri.drop 1 = r.path.bytes.drop 1 ∨ req.uri.drop 1 = r.path.bytes.drop 1 ++ [slash])

variable {authService : δ} {req : Request}

theorem routeOf_eq_some_iff {r : Router δ Handler} (hne : req.uri ≠ []) :
    routeOf (routes authService) req = some r ↔ r ∈ routes authService ∧ Asks req r := by
  have ht := distinctPaths_routes authService
  rw [Http.RequestHandler.routeOf_eq_some_iff ht]
  refine and_congr_right fun hr => ?_
  rw [(ht.canonical r hr).segments_eq_iff hne, and_comm, Asks]

theorem routeOf_eq_none_iff (hne : req.uri ≠ []) :
    routeOf (routes authService) req = none ↔ ∀ r ∈ routes authService, ¬ Asks req r := by
  rw [Option.eq_none_iff_forall_ne_some]
  constructor
  · intro h r hr hasks
    exact h r ((routeOf_eq_some_iff hne).mpr ⟨hr, hasks⟩)
  · intro h r hr
    obtain ⟨hmem, hasks⟩ := (routeOf_eq_some_iff hne).mp hr
    exact h r hmem hasks

/-- A request asks for one of the four routes, or for none. -/
theorem asks_cases (authService : δ) (req : Request) :
    Asks req (loginRoute authService) ∨ Asks req (registerRoute authService) ∨
      Asks req (logoutRoute authService) ∨ Asks req (userRoute authService) ∨
      ∀ r ∈ routes authService, ¬ Asks req r := by
  by_cases hasks : ∃ r ∈ routes authService, Asks req r
  · obtain ⟨r, hr, hasks⟩ := hasks
    simp only [routes, List.mem_cons, List.not_mem_nil, or_false] at hr
    rcases hr with rfl | rfl | rfl | rfl
    · exact .inl hasks
    · exact .inr (.inl hasks)
    · exact .inr (.inr (.inl hasks))
    · exact .inr (.inr (.inr (.inl hasks)))
  · exact .inr (.inr (.inr (.inr fun r hr hr' => hasks ⟨r, hr, hr'⟩)))

/-- The handler that `setup` and `finalize` leave behind. -/
def Ready (h : RequestHandler δ Handler) (authService : δ) : Prop :=
  ∃ cap, finalize cap (setup {} authService) = .ok h

/-- Room for 16 nodes is enough for the routes. -/
theorem exists_ready {cap : Capacity} (hcap : 16 ≤ cap.maxSize) (authService : δ) :
    ∃ h, finalize cap (setup {} authService) = .ok h := by
  have hne : ∀ r ∈ routes authService, r.path.bytes ≠ [] := by
    intro r hr hnil
    have := ((distinctPaths_routes authService).canonical r hr).length
    simp [hnil] at this
  have hnodes : tableNodes (routes authService) = 15 := by
    have : tableNodes (routes authService) = tableNodes (routes ()) := rfl
    rw [this]
    decide
  exact (Http.RequestHandler.through_finalize cap hne).exists_ok (by omega)

theorem handleRequest_eq {h : RequestHandler δ Handler} (hready : Ready h authService)
    (hne : req.uri ≠ []) : h.handleRequest req = some (routed (routes authService) req) := by
  obtain ⟨cap, hok⟩ := hready
  exact Http.RequestHandler.dispatch_distinctPaths (distinctPaths_routes authService)
    (Http.RequestHandler.finalize_refines hok) hne

/-- With room for 16 nodes the API is set up, and then each request executes the
endpoint of the route it asks for, unchanged, or is answered with the stock 404. -/
theorem setup_dispatch {cap : Capacity} (hcap : 16 ≤ cap.maxSize) (authService : δ) :
    ∃ h, finalize cap (setup {} authService) = .ok h ∧ ∀ req : Request, req.uri ≠ [] →
      (∀ r ∈ routes authService, Asks req r →
        h.handleRequest req = some (.executed r.callback req)) ∧
      ((∀ r ∈ routes authService, ¬ Asks req r) → h.handleRequest req = some notFound) := by
  obtain ⟨h, hok⟩ := exists_ready hcap authService
  refine ⟨h, hok, fun req hne => ⟨fun r hr hasks => ?_, fun hnone => ?_⟩⟩
  · rw [handleRequest_eq ⟨cap, hok⟩ hne, routed, (routeOf_eq_some_iff hne).mpr ⟨hr, hasks⟩]
  · rw [handleRequest_eq ⟨cap, hok⟩ hne, routed, (routeOf_eq_none_iff hne).mpr hnone]
    rfl

theorem setup_dispatch_sample :
    ∃ h, finalize ⟨16, by decide⟩ (setup {} ()) = .ok h ∧ ∀ req : Request, req.uri ≠ [] →
      (∀ r ∈ routes (), Asks req r → h.handleRequest req = some (.executed r.callback req)) ∧
      ((∀ r ∈ routes (), ¬ Asks req r) → h.handleRequest req = some notFound) :=
  @setup_dispatch Unit ⟨16, by decide⟩ (by decide) ()

/-- The handler that `setup` and `finalize` build. -/
def sampleApp : RequestHandler Unit Handler where
  staticRoutes :=
    [{ map := [(lit "api", 1)] }, { map := [(lit "user", 6), (lit "auth", 2)] },
      { map := [(lit "register", 5), (lit "logout", 4), (lit "login", 3)] },
      { endpointPos := 0 }, { endpointPos := 1 }, { endpointPos := 2 }, { endpointPos := 3 }]
  endpoints := [0x80000003, 0x80000003, 0x80000003, 0x80000001]
  callbacks := [⟨(), postLogin⟩, ⟨(), postLogout⟩, ⟨(), postRegister⟩, ⟨(), getUser⟩]

theorem ready_sampleApp : Ready sampleApp () := ⟨⟨16, by decide⟩, rfl⟩

end RePlace.Api.Auth
