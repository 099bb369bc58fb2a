import HomeServices.Concurrent.Alone
import HomeServices.Concurrent.Gate
import HomeServices.Concurrent.Guarded
import HomeServices.Concurrent.Program
import HomeServices.Concurrent.Protocol
import HomeServices.Concurrent.ReadCommitted
import HomeServices.Concurrent.Resources
import HomeServices.Concurrent.Schedule
import HomeServices.Concurrent.Translation
import HomeServices.Email.Handler
import HomeServices.Email.Handling
import HomeServices.Email.Mailboxes
import HomeServices.Email.Partition
import HomeServices.Email.Pipeline
import HomeServices.Gateway.Accounts
import HomeServices.Gateway.Contract
import HomeServices.Gateway.CookiePairs
import HomeServices.Gateway.Isolation
import HomeServices.Gateway.Refusals
import HomeServices.Gateway.Subjects
import HomeServices.Identity.Access
import HomeServices.Identity.Activation
import HomeServices.Identity.Addressees
import HomeServices.Identity.Answers
import HomeServices.Identity.Authorization
import HomeServices.Identity.Connections
import HomeServices.Identity.Crypto.Builds
import HomeServices.Identity.Crypto.Confusion
import HomeServices.Identity.Crypto.Envelope
import HomeServices.Identity.Crypto.Kek
import HomeServices.Identity.Deadlock
import HomeServices.Identity.Emails
import HomeServices.Identity.Enumeration
import HomeServices.Identity.Journey
import HomeServices.Identity.KeyTable
import HomeServices.Identity.Locks
import HomeServices.Identity.Outcomes
import HomeServices.Identity.PasswordPolicy
import HomeServices.Identity.Passwords
import HomeServices.Identity.Platform
import HomeServices.Identity.PublishedKeys
import HomeServices.Identity.RateLimit
import HomeServices.Identity.Resending
import HomeServices.Identity.Rpc
import HomeServices.Identity.Schema
import HomeServices.Identity.Signatures
import HomeServices.Identity.SingleUse
import HomeServices.Identity.Success
import HomeServices.Identity.Suspension
import HomeServices.Identity.TokenWindow
import HomeServices.Identity.Traceless
import HomeServices.Identity.Waiting
import HomeServices.Outbox.Connections
import HomeServices.Outbox.Contract
import HomeServices.Outbox.Delivery
import HomeServices.Outbox.Duplicates
import HomeServices.Outbox.Leadership
import HomeServices.Outbox.Order
import HomeServices.Outbox.Recovery
import HomeServices.Outbox.Starvation
import HomeServices.Text.Base64Url
import HomeServices.Text.Json
import HomeServices.Text.UrlPath
import HomeServices.Web.Forwarding
import HomeServices.Web.Proxy
import HomeServices.Web.Target
