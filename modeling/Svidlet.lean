import Svidlet.Broker.Refused
import Svidlet.Broker.Subject
import Svidlet.Daemon.Repeated
import Svidlet.Daemon.Subscriptions
import Svidlet.Issue.Anchor
import Svidlet.Issue.RoundTrip
import Svidlet.Issue.Segments
import Svidlet.Issue.SubjectPath
import Svidlet.Node.Adopted
import Svidlet.Node.Issued
import Svidlet.Node.Refresh
import Svidlet.Node.Rollback
import Svidlet.Node.Upkeep
import Svidlet.Policy.Retention
import Svidlet.Policy.Rings
import Svidlet.Policy.Subscribed
import Svidlet.Policy.Unpackable
import Svidlet.Policy.Validated
import Svidlet.Volume.Concurrent
import Svidlet.Volume.Mountinfo
import Svidlet.Volume.Readers
import Svidlet.Volume.Writers
