import FreeBox.Lib.Text
import FreeBox.Lib.Url
import FreeBox.Server.Error

/-!
# Creating a bucket

Model of `create_bucket` in `plugins/storage-s3/src/bucket.rs` with `sign` of
`plugins/storage-s3/src/sigv4.rs`, and of the handler in `apps/server/src/api/storage.rs`. The
two hash functions, the clock, the URL parser's parameters and the service are parameters.

**Deviation from the documentation.** The argument `uri` of `sign` is said to be the path of
the URL. `create_bucket` passes the name of the bucket after a slash, and sends the request
to what the URL parser makes of the endpoint, a slash and the name.

Results:
* `createBucket_sent`: the request and what was signed for it.
* `signed_is_sent_iff`: for which endpoints and names the two agree.
-/

namespace FreeBox.Storage

open FreeBox.Lib
open FreeBox.Server (AppError)

/-! ## `sigv4` -/

/-- What the signature of a request is computed with: SHA-256, HMAC-SHA-256 and the two forms
    of `Utc::now`. -/
structure Signer where
  sha256 : Bytes → Bytes
  hmacSha256 : (key data : Bytes) → Bytes
  date : String
  datetime : String

/-- `str::as_bytes`. -/
def utf8 (s : String) : Bytes := s.toList.flatMap String.utf8EncodeChar

/-- `hex::encode`. -/
def hexEncode (b : Bytes) : String := String.ofList (b.flatMap fun x => hexFixed 2 x.toNat)

/-- `sigv4::sha256_hex`. -/
def Signer.sha256Hex (s : Signer) (data : Bytes) : String := hexEncode (s.sha256 data)

/-- `sigv4::signing_key`. -/
def Signer.signingKey (s : Signer) (secretKey region service : String) : Bytes :=
  let kDate := s.hmacSha256 (utf8 ("AWS4" ++ secretKey)) (utf8 s.date)
  let kRegion := s.hmacSha256 kDate (utf8 region)
  let kService := s.hmacSha256 kRegion (utf8 service)
  s.hmacSha256 kService (utf8 "aws4_request")

/-- The arguments of `sigv4::sign`. -/
structure SignArgs where
  method : String
  uri : String
  queryString : String
  host : String
  payload : Bytes
  accessKey : String
  secretKey : String
  region : String

/-- `sigv4::Signed`. -/
structure Signed where
  authorization : String
  xAmzDate : String
  xAmzContentSha256 : String

/-- `sigv4::sign`. -/
def Signer.sign (s : Signer) (args : SignArgs) : Signed :=
  let payloadHash := s.sha256Hex args.payload
  let signedHeaders := "host;x-amz-content-sha256;x-amz-date"
  let canonicalHeaders := "host:" ++ args.host ++ "\nx-amz-content-sha256:" ++ payloadHash ++
    "\nx-amz-date:" ++ s.datetime ++ "\n"
  let canonicalRequest := args.method ++ "\n" ++ args.uri ++ "\n" ++ args.queryString ++ "\n" ++
    canonicalHeaders ++ "\n" ++ signedHeaders ++ "\n" ++ payloadHash
  let crHash := s.sha256Hex (utf8 canonicalRequest)
  let credentialScope := s.date ++ "/" ++ args.region ++ "/s3/aws4_request"
  let stringToSign :=
    "AWS4-HMAC-SHA256\n" ++ s.datetime ++ "\n" ++ credentialScope ++ "\n" ++ crHash
  let key := s.signingKey args.secretKey args.region "s3"
  let signature := hexEncode (s.hmacSha256 key (utf8 stringToSign))
  { authorization := "AWS4-HMAC-SHA256 Credential=" ++ args.accessKey ++ "/" ++ credentialScope ++
      ",SignedHeaders=" ++ signedHeaders ++ ",Signature=" ++ signature
    xAmzDate := s.datetime
    xAmzContentSha256 := payloadHash }

/-! ## `create_bucket` -/

/-- The request that `reqwest` is given: the URL and the headers. -/
structure PutRequest where
  url : Url.HttpUrl
  host : String
  xAmzContentSha256 : String
  xAmzDate : String
  authorization : String

/-- A response: the status code, the status as it is printed and the body. -/
structure Response where
  code : ℕ
  status : String
  body : String

/-- Where a request is made. `send` is `reqwest`, with the text of its error when there is no
    response; `refused` is its error for a URL of a scheme other than `http` and `https`. -/
structure Service where
  rules : Url.Rules
  signer : Signer
  send : PutRequest → Except String Response
  refused : String

/-- The variants of `core::error::Error` that `create_bucket` returns. -/
inductive BucketError
  | config (message : String)
  | storage (message : String)
  deriving DecidableEq

/-- A request that was sent, and what was signed for it. -/
structure Sent where
  signed : SignArgs
  request : PutRequest

/-- `bucket::create_bucket`, with the request that it sends. -/
def createBucket (service : Service) (endpoint bucket region accessKey secretKey : String) :
    Option Sent × Except BucketError Unit :=
  let endpoint := trimEndMatches '/' endpoint
  let url := endpoint ++ "/" ++ bucket
  match Url.parse service.rules url.toList with
  | .error e => (none, .error (.config ("invalid endpoint URL: " ++ e)))
  | .ok .other => (none, .error (.storage ("bucket create HTTP error: " ++ service.refused)))
  | .ok (.http parsed) =>
    let host := String.ofList parsed.host
    let uri := "/" ++ bucket
    let args : SignArgs :=
      { method := "PUT", uri, queryString := "", host, payload := [], accessKey, secretKey, region }
    let signed := service.signer.sign args
    let request : PutRequest :=
      { url := parsed
        host
        xAmzContentSha256 := signed.xAmzContentSha256
        xAmzDate := signed.xAmzDate
        authorization := signed.authorization }
    (some { signed := args, request },
      match service.send request with
      | .error e => .error (.storage ("bucket create HTTP error: " ++ e))
      | .ok response =>
        if (200 ≤ response.code ∧ response.code < 300) ∨ response.code = 409 then .ok ()
        else .error (.storage ("failed to create bucket '" ++ bucket ++ "': HTTP " ++
          response.status ++ " — " ++ response.body)))

/-! ## The handler -/

/-- The fields of `config::Config` that the handler reads. -/
structure StorageConfig where
  storageProvider : String
  storageS3Endpoint : String
  storageS3Region : String
  storageS3AccessKey : String
  storageS3SecretKey : String

/-- `storage::uses_s3_compatible_storage`. -/
def usesS3CompatibleStorage (cfg : StorageConfig) : Bool :=
  let provider := String.ofList ((strTrim cfg.storageProvider).toList.map Char.toLower)
  provider = "s3" ∨ provider = "r2"

/-- `storage::CreateBucketResponse`. -/
structure CreateBucketResponse where
  name : String
  created : Bool
  deriving DecidableEq

/-- The handler `storage::create_bucket`, with the request that the plugin sends. -/
def createBucketHandler (service : Service) (cfg : StorageConfig) (name : String) :
    Option Sent × Except AppError CreateBucketResponse :=
  if !usesS3CompatibleStorage cfg then
    (none, .error (.badRequest "bucket management is only available for S3-compatible backends"))
  else if name = "" then (none, .error (.badRequest "bucket name cannot be empty"))
  else
    let (sent, result) := createBucket service cfg.storageS3Endpoint name cfg.storageS3Region
      cfg.storageS3AccessKey cfg.storageS3SecretKey
    (sent, match result with
      | .error _ => .error .internal
      | .ok () => .ok { name, created := true })

/-! ## What is signed and what is sent -/

/-- The bucket that a path addresses, as bytes: its only segment, percent-decoded. -/
def bucketOf : List Char → Option Bytes
  | '/' :: segment => if '/' ∈ segment then none else some (Url.percentDecode segment)
  | _ => none

/-- The path and the query that are sent are the ones that were signed, there is no fragment,
    and the path addresses the bucket of this name. -/
def SignedIsSent (name : String) (sent : Sent) : Prop :=
  String.ofList sent.request.url.pathText = sent.signed.uri ∧
    String.ofList (sent.request.url.query.getD []) = sent.signed.queryString ∧
    sent.request.url.fragment = none ∧
    bucketOf sent.request.url.pathText = some (utf8 name)

theorem createBucket_sent {service : Service}
    {endpoint bucket region accessKey secretKey : String} {sent : Sent}
    (h : (createBucket service endpoint bucket region accessKey secretKey).1 = some sent) :
    Url.parse service.rules ((trimEndMatches '/' endpoint).toList ++ '/' :: bucket.toList) =
        .ok (.http sent.request.url) ∧
      sent.signed.uri = "/" ++ bucket ∧ sent.signed.queryString = "" := by
  have hurl : (trimEndMatches '/' endpoint ++ "/" ++ bucket).toList =
      (trimEndMatches '/' endpoint).toList ++ '/' :: bucket.toList := by
    rw [String.toList_append, String.toList_append, List.append_assoc]
    rfl
  unfold createBucket at h
  rw [← hurl]
  dsimp only at h
  split at h
  · cases h
  · cases h
  · rename_i parsed hparse
    obtain rfl := Option.some.inj h
    exact ⟨hparse, rfl, rfl⟩

theorem createBucketHandler_sent {service : Service} {cfg : StorageConfig} {name : String}
    {sent : Sent} (h : (createBucketHandler service cfg name).1 = some sent) :
    name ≠ "" ∧ (createBucket service cfg.storageS3Endpoint name cfg.storageS3Region
      cfg.storageS3AccessKey cfg.storageS3SecretKey).1 = some sent := by
  unfold createBucketHandler at h
  generalize createBucket service cfg.storageS3Endpoint name cfg.storageS3Region
    cfg.storageS3AccessKey cfg.storageS3SecretKey = answer at h ⊢
  split_ifs at h with huses hname
  exact ⟨hname, h⟩

/-- A path of one segment addresses the bucket of this name if the name has no percent
    escapes. -/
theorem bucketOf_eq_iff (name : String) :
    bucketOf ('/' :: name.toList) = some (utf8 name) ↔
      '/' ∉ name.toList ∧ Url.hasEscape name.toList = false := by
  rw [← Url.percentDecode_eq_iff]
  show (if '/' ∈ name.toList then none else some (Url.percentDecode name.toList)) = _ ↔ _
  by_cases hslash : '/' ∈ name.toList
  · simp [hslash]
  · simp [hslash, utf8]

theorem signedIsSent_iff {name : String} {sent : Sent} {rules : Url.Rules} {input : List Char}
    (hparse : Url.parse rules input = .ok (.http sent.request.url))
    (huri : sent.signed.uri = "/" ++ name) (hquery : sent.signed.queryString = "") :
    SignedIsSent name sent ↔
      (sent.request.url.path = [name.toList] ∧ sent.request.url.query.getD [] = [] ∧
        sent.request.url.fragment = none) ∧ Url.hasEscape name.toList = false := by
  have htext : String.ofList sent.request.url.pathText = sent.signed.uri ↔
      sent.request.url.pathText = '/' :: name.toList := by
    rw [huri, ← String.toList_inj, String.toList_ofList, String.toList_append]
    rfl
  have hempty : String.ofList (sent.request.url.query.getD []) = sent.signed.queryString ↔
      sent.request.url.query.getD [] = [] := by
    rw [hquery, ← String.toList_inj, String.toList_ofList]
    rfl
  have hpath : (sent.request.url.pathText = '/' :: name.toList ∧ '/' ∉ name.toList) ↔
      sent.request.url.path = [name.toList] := Url.pathText_eq_iff (Url.parse_segments hparse)
  have hbucket := bucketOf_eq_iff name
  rw [SignedIsSent, htext, hempty, ← hpath]
  constructor
  · rintro ⟨hpathText, hquery, hfragment, haddress⟩
    rw [hpathText, hbucket] at haddress
    exact ⟨⟨⟨hpathText, haddress.1⟩, hquery, hfragment⟩, haddress.2⟩
  · rintro ⟨⟨⟨hpathText, hslash⟩, hquery, hfragment⟩, hescape⟩
    refine ⟨hpathText, hquery, hfragment, ?_⟩
    rw [hpathText, hbucket]
    exact ⟨hslash, hescape⟩

/-- The request that is sent is the one that was signed, and for the bucket of this name, if
    the endpoint is the URL of a root and the name is its own text in the path of a URL. -/
theorem signed_is_sent_iff {service : Service} {cfg : StorageConfig} {name : String} {sent : Sent}
    (h : (createBucketHandler service cfg name).1 = some sent) :
    SignedIsSent name sent ↔
      Url.IsRoot service.rules ((trimEndMatches '/' cfg.storageS3Endpoint).toList ++ ['/']) ∧
        Url.isSegment service.rules.caret name.toList = true ∧
        Url.hasEscape name.toList = false := by
  obtain ⟨hname, hsent⟩ := createBucketHandler_sent h
  obtain ⟨hparse, huri, hquery⟩ := createBucket_sent hsent
  have hne : name.toList ≠ [] := fun hnil => hname (String.toList_eq_nil_iff.mp hnil)
  rw [signedIsSent_iff hparse huri hquery, Url.parse_append_iff hne hparse, and_assoc]

/-- A service whose hosts are taken as they are. -/
def plainService : Service where
  rules := { caret := true, authority := .ok, other := fun _ _ => .ok () }
  signer := { sha256 := id, hmacSha256 := fun _ data => data, date := "", datetime := "" }
  send _ := .ok { code := 200, status := "200 OK", body := "" }
  refused := ""

def plainConfig : StorageConfig where
  storageProvider := "s3"
  storageS3Endpoint := "https://a.b"
  storageS3Region := "auto"
  storageS3AccessKey := ""
  storageS3SecretKey := ""

theorem signed_is_sent_run :
    ∃ sent, (createBucketHandler plainService plainConfig "photos").1 = some sent ∧
      SignedIsSent "photos" sent := by
  have hsome : (createBucketHandler plainService plainConfig "photos").1.isSome = true := by
    decide +kernel
  obtain ⟨sent, hsent⟩ := Option.isSome_iff_exists.mp hsome
  have hscheme : Url.splitScheme
      (Url.clean ((trimEndMatches '/' plainConfig.storageS3Endpoint).toList ++ ['/'])) =
        some ("https".toList, "//a.b/".toList) := by decide
  have hroot : Url.IsRoot plainService.rules
      ((trimEndMatches '/' plainConfig.storageS3Endpoint).toList ++ ['/']) :=
    ⟨_, Url.parse_eq hscheme (.inr rfl) (by decide) rfl, by decide, rfl, rfl⟩
  exact ⟨sent, hsent, (signed_is_sent_iff hsent).mpr ⟨hroot, by decide, by decide⟩⟩

/-- The request is for the bucket `b`. -/
theorem other_bucket_sent :
    ∃ sent, (createBucketHandler plainService plainConfig "a/../b").1 = some sent ∧
      ¬ SignedIsSent "a/../b" sent := by
  have hrequest : (createBucketHandler plainService plainConfig "a/../b").1.map
      (fun sent => (sent.request.url.pathText, sent.signed.uri)) =
        some (['/', 'b'], "/a/../b") := by decide +kernel
  obtain ⟨sent, hsent, htexts⟩ := Option.map_eq_some_iff.mp hrequest
  obtain ⟨hpath, huri⟩ := Prod.mk.inj htexts
  refine ⟨sent, hsent, ?_⟩
  rintro ⟨hsigned, -⟩
  rw [hpath, huri] at hsigned
  exact absurd hsigned (by decide)

end FreeBox.Storage
